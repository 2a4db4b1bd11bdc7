import TreeRender.Proofs.Containment.Written
import TreeRender.Proofs.Dom.Parity
import TreeRender.Proofs.Markup.Escape

/-!
# Failures are contained

Where failures do not surface, a render to markup, a drained stream and a render to live nodes give
what they give for the tree in which the fallback stands for each component that fails and for each
computed text that panics. So nothing but the place of a failure is touched by it, however many
there are.
-/

namespace TreeRender

open Markup MarkupStream

variable {F : Type} {config : Config}

theorem agree_replace (hthrow : config.throwOnError = false) (program : Program F Unit)
    (node : Node F) (state state' : Unit) :
    Walk.Agree WalkState.Quiet (fun _ => Outline.Filled Placed.free config.errorFallback)
      (outlining program config node state)
      (outlining (program.placed config) config (program.replace config 1 node) state') :=
  fills_outlineFrom hthrow (Nat.add_comm 1 config.maxDepth) node _ _ rfl ⟨rfl, rfl⟩

section

variable (hthrow : config.throwOnError = false) (hescape : escape config.errorFallback =
  config.errorFallback) (program : Program F Unit) (node : Node F) (world world' : World Unit)

include hthrow hescape

namespace MarkupRenderer

variable {r : MarkupRenderer F} {r' : MarkupRenderer (Placed F)} (hr : r.Sound config)
  (hr' : r'.Sound config) (hids : r'.actions.nextId = r.actions.nextId)

include hr hr' hids

private theorem Sound.result_replace :
    (r'.render (program.placed config) (program.replace config 1 node) world').value.result =
      (r.render program node world).value.result := by
  have agree := agree_replace hthrow program node world.state world'.state
  rw [hr.result_eq, hr'.result_eq]
  generalize outlining program config node world.state = p at agree ⊢
  generalize outlining (program.placed config) config _ world'.state = q at agree ⊢
  cases agree with
  | error _ => rfl
  | ok hfilled _ =>
    simp only [Except.map, (hfilled.bottomUp hescape config.enableHydration hids).1]

private theorem Sound.drain_replace (hencoding : config.encoding = .utf8)
    (hfallback : config.minify = true → '<' ∉ config.errorFallback.toList) :
    ∃ items last items' last' result,
      Drains (MarkupStream.new r program node world).next.value items last ∧
      Drains (MarkupStream.new r' (program.placed config) (program.replace config 1 node)
        world').next.value items' last' ∧
      Delivers items result ∧ Delivers items' result := by
  have agree := agree_replace hthrow program node world.state world'.state
  obtain ⟨items, last, hdrains, hdelivers, -⟩ :=
    hr.drain_result hencoding hfallback program node world
  obtain ⟨items', last', hdrains', hdelivers', -⟩ :=
    hr'.drain_result hencoding hfallback (program.placed config) (program.replace config 1 node)
      world'
  refine ⟨items, last, items', last', _, hdrains, hdrains', hdelivers, ?_⟩
  generalize outlining program config node world.state = p at agree ⊢
  generalize outlining (program.placed config) config _ world'.state = q at agree hdelivers'
  cases agree with
  | error _ => exact hdelivers'
  | ok hfilled _ =>
    simp only [Except.map, (hfilled.topDown hescape config.enableHydration hids).1] at hdelivers'
    exact hdelivers'

end MarkupRenderer

end

namespace LiveRenderer

/-- The markup of the live nodes that a render has made. -/
def Output.html {σ : Type}
    (output : Output (Dom.Document F) σ (Except RenderError (List Dom.NodeId))) :
    Except RenderError String :=
  output.result.map fun ids => String.join (ids.map output.renderer.host.outerHtml)

private theorem Sound.html_replace (hthrow : config.throwOnError = false)
    {live : LiveRenderer (Dom.Document F)} {live' : LiveRenderer (Dom.Document (Placed F))}
    (hlive : live.Sound F config) (hlive' : live'.Sound (Placed F) config)
    {container container' : Option Dom.NodeId}
    (hcontainer : ∀ id, container = some id → id < live.host.nodes.size)
    (hcontainer' : ∀ id, container' = some id → id < live'.host.nodes.size)
    (program : Program F Unit) (node : Node F) (world world' : World Unit) :
    (live'.render Dom.Document.host (program.placed config) (program.replace config 1 node)
        container' world').value.html =
      (live.render Dom.Document.host program node container world).value.html := by
  have agree := agree_replace hthrow program node world.state world'.state
  have hshown := hlive.mirrors program node hcontainer world
  have hshown' := hlive'.mirrors (program.placed config) (program.replace config 1 node)
    hcontainer' world'
  unfold Output.html
  generalize outlining program config node world.state = p at agree hshown
  generalize outlining (program.placed config) config _ world'.state = q at agree hshown'
  cases agree with
  | error _ =>
    rw [hshown, hshown']
    rfl
  | ok hfilled _ =>
    obtain ⟨ids, hresult, hmirrors⟩ := hshown
    obtain ⟨ids', hresult', hmirrors'⟩ := hshown'
    rw [hresult, hresult']
    exact congrArg Except.ok
      (hmirrors.html_filled hfilled hmirrors' hmirrors.lt_size hmirrors'.lt_size)

end LiveRenderer

/-- For pure functions, and where failures do not surface, a render to markup, a drained stream and
a render to live nodes give what they give for the tree with its failures replaced, in which the
fallback stands for each component whose evaluation at its depth ends with a failed function, also
inside of what components return, and for each computed text that panics. -/
theorem renders_contain_failures (hthrow : config.throwOnError = false)
    (hencoding : config.encoding = .utf8)
    (hplain : ∀ c ∈ config.errorFallback.toList, c ≠ '&' ∧ IsPlain c)
    {r : MarkupRenderer F} {r' : MarkupRenderer (Placed F)} (hr : r.Reachable config)
    (hr' : r'.Reachable config) (hids : r'.actions.nextId = r.actions.nextId)
    {live : LiveRenderer (Dom.Document F)} {live' : LiveRenderer (Dom.Document (Placed F))}
    (hlive : live.Reachable Dom.Document.host config)
    (hlive' : live'.Reachable Dom.Document.host config) {container container' : Option Dom.NodeId}
    (hcontainer : ∀ id, container = some id → id < live.host.nodes.size)
    (hcontainer' : ∀ id, container' = some id → id < live'.host.nodes.size)
    (program : Program F Unit) (node : Node F) (world world' : World Unit) :
    let program' := program.placed config
    let replaced := program.replace config 1 node
    (r'.render program' replaced world').value.result = (r.render program node world).value.result ∧
    (∃ items last items' last' result,
      Drains (MarkupStream.new r program node world).next.value items last ∧
      Drains (MarkupStream.new r' program' replaced world').next.value items' last' ∧
      Delivers items result ∧ Delivers items' result) ∧
    (live'.render Dom.Document.host program' replaced container' world').value.html =
      (live.render Dom.Document.host program node container world).value.html := by
  have hescape := escape_eq_self hplain
  have hfallback : config.minify = true → '<' ∉ config.errorFallback.toList :=
    fun _ hmem => (hplain _ hmem).2.1 rfl
  exact ⟨hr.sound.result_replace hthrow hescape program node world world' hr'.sound hids,
    hr.sound.drain_replace hthrow hescape program node world world' hr'.sound hids hencoding
      hfallback,
    hlive.sound.html_replace hthrow hlive'.sound hcontainer hcontainer' program node world world'⟩

/-- A component that always fails, one that stands for it, and one with an element around it. -/
def Program.faulty : Program String Unit where
  produce name _ :=
    if name = "relay" then return (.ok (.component (.producer "broken")), ())
    else if name = "card" then
      return (.ok (.element ((Element.new "b").child (.component (.producer "broken")))), ())
    else return (.error (.refused "broken"), ())
  provide _ _ _ _ := .finish (return (.error (.panicked none), ()))
  compute _ _ := return (.error none, ())

def faultyTree : Node String :=
  .element ((((Element.new "p").child (.component (.producer "relay"))).child
    (.component (.producer "card"))).child (.element ((Element.new "i").withComputedText "label")))

theorem renders_contain_failures_relayed :
    let config : Config := { errorFallback := "n/a" }
    let replaced := Program.faulty.replace config 1 faultyTree
    let world : World Unit := { state := (), clock := { reading := id } }
    Program.faulty.failsAt config 2 (.producer "relay") = true ∧
    Program.faulty.failsAt config 2 (.producer "card") = false ∧
    ((MarkupRenderer.fresh config).render (Program.faulty.placed config) replaced
      world).value.result = .ok "<p>n/a<b>n/a</b><i>n/a</i></p>" := by
  intro config replaced world
  have hfails : Program.faulty.failsAt config 2 (.producer "relay") = true ∧
      Program.faulty.failsAt config 2 (.producer "card") = false := by decide +kernel
  have hall : "n/a".toList.all (fun c => c ≠ '&' ∧ IsPlain c) = true := by decide +kernel
  have hplain (c : Char) (hc : c ∈ "n/a".toList) : c ≠ '&' ∧ IsPlain c :=
    of_decide_eq_true (List.all_eq_true.1 hall c hc)
  have hr : (MarkupRenderer.fresh config : MarkupRenderer String).Reachable config := .new rfl
  have hr' : (MarkupRenderer.fresh config : MarkupRenderer (Placed String)).Reachable config :=
    .new rfl
  have hlive : (LiveRenderer.fresh config ({} : Dom.Document String)).Reachable Dom.Document.host
    config := .new rfl
  have hlive' : (LiveRenderer.fresh config ({} : Dom.Document (Placed String))).Reachable
    Dom.Document.host config := .new rfl
  have hnowhere (size : Nat) (id : Dom.NodeId) (h : none = some id) : id < size := nomatch h
  obtain ⟨hsame, -⟩ := renders_contain_failures rfl rfl hplain hr hr' rfl hlive hlive'
    (hnowhere _) (hnowhere _) Program.faulty faultyTree world world
  have hshown : ((MarkupRenderer.fresh config).render Program.faulty faultyTree
      world).value.result.toOption = some "<p>n/a<b>n/a</b><i>n/a</i></p>" := by decide +kernel
  refine ⟨hfails.1, hfails.2, hsame.trans ?_⟩
  cases hresult : ((MarkupRenderer.fresh config).render Program.faulty faultyTree
      world).value.result with
  | error e =>
    rw [hresult] at hshown
    cases hshown
  | ok html =>
    rw [hresult] at hshown
    exact congrArg Except.ok (Option.some.inj hshown)

end TreeRender
