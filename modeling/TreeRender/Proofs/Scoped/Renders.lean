import TreeRender.Proofs.Renderer.Endings
import TreeRender.Proofs.Renderer.Twins
import TreeRender.Proofs.Scoped.Outline

/-!
# Rendering what a scope resolves

A provider that has a tree resolved and returns it renders like a producer that returns the tree, as
long as it renders at all. It takes the levels that resolving takes, which may be more than those
that the walk of the same tree takes.
-/

namespace TreeRender

open Markup MarkupStream

variable {F H N σ : Type} {program : Program F σ} {config : Config} {unfold : F → Node F}
  {label : F → String}

section

variable {scoping direct : F} {node : Node F}
  (hscoping : ∀ s, (program.provide scoping 1 config s).Scopes node)
  (hdirect : ∀ s, (program.produce direct s).value.1 = .ok node)
  (hsteady : program.Steady unfold label node)

theorem outlining_eq (node : Node F) (state : σ) : outlining program config node state =
    (outlineFrom program config config.maxDepth 1 node).exec (outlineStart state) := by
  have hlevels : config.levelsAt 1 = config.maxDepth := by
    unfold Config.levelsAt
    omega
  rw [outlining, hlevels]

include hscoping hsteady

private theorem outlining_scoped_error (hfits : ¬1 + node.scopedHeight unfold ≤ config.maxDepth)
    (state : σ) : (outlining program config (.component (.provider scoping)) state).1 =
      .error (config.depthError (config.maxDepth + 1)) := by
  rw [outlining_eq]
  cases hmax : config.maxDepth with
  | zero => rfl
  | succ levels =>
    rw [hmax, one_add_le_succ, Node.scopedHeight_le] at hfits
    obtain ⟨result, t, hcall, -, -, -, herror⟩ := exec_invoke_scopes hscoping
      (show 1 + 1 + levels = config.maxDepth + 1 by omega) hsteady
      (s := (outlineStart state).toScene) rfl
    rw [exec_outline_component, hcall, herror hfits, hmax]
    rfl

include hdirect

private theorem outlining_scoped_twin (hfits : 1 + node.scopedHeight unfold ≤ config.maxDepth)
    (state state' : σ) : ∃ o o', o.Twin o' ∧
      (outlining program config (.component (.producer direct)) state').1 = .ok o ∧
      (outlining program config (.component (.producer direct)) state').2.counters.errors = 0 ∧
      (outlining program config (.component (.provider scoping)) state).1 = .ok o' ∧
      (outlining program config (.component (.provider scoping)) state).2.counters.errors = 0 := by
  obtain ⟨levels, hmax⟩ : ∃ levels, config.maxDepth = levels + 1 := by
    cases hmax : config.maxDepth with
    | zero =>
      rw [hmax] at hfits
      exact absurd hfits (not_le_zero_of_one_le le_self_add)
    | succ levels => exact ⟨levels, rfl⟩
  rw [hmax, one_add_le_succ, Node.scopedHeight_le] at hfits
  obtain ⟨o, o', htwin, hnode, hresolved⟩ := shows_resolvedFrom config hfits hsteady 2 le_rfl 2
  obtain ⟨t, ht, -, herrors⟩ :=
    (Shows.producer hdirect hnode.alone).alone (outlineStart state') rfl
  obtain ⟨result, u, hcall, hpending, hcounters, hok, -⟩ := exec_invoke_scopes hscoping
    (show 1 + 1 + levels = config.maxDepth + 1 by omega) hsteady
    (s := (outlineStart state).toScene) rfl
  obtain ⟨v, hv, -, herrors'⟩ := hresolved.alone { outlineStart state with toScene := u } hpending
  have huncounted : u.counters.errors = 0 := congrArg Counters.errors hcounters
  rw [outlining_eq, outlining_eq, hmax, ht, exec_outline_component, hcall, hok hfits]
  refine ⟨o, o', htwin, rfl, herrors, ?_, ?_⟩
  · exact congrArg Prod.fst hv
  · exact (congrArg (·.2.counters.errors) hv).trans (herrors'.trans huncounted)

private theorem succeedsIff_outlining_scoping (state : σ) :
    SucceedsIff config (1 + node.scopedHeight unfold ≤ config.maxDepth)
      (outlining program config (.component (.provider scoping)) state).1 where
  ok hfits := by
    obtain ⟨-, o', -, -, -, hok, -⟩ :=
      outlining_scoped_twin hscoping hdirect hsteady hfits state state
    exact ⟨o', hok⟩
  error hno := outlining_scoped_error hscoping hsteady hno state

private theorem outlining_scoped_ok (state state' : σ) {o : Outline F}
    (hok : (outlining program config (.component (.provider scoping)) state).1 = .ok o) :
    Outline.TwinResults (outlining program config (.component (.producer direct)) state').1
        (outlining program config (.component (.provider scoping)) state).1 ∧
      (outlining program config (.component (.producer direct)) state').2.counters.errors = 0 ∧
      (outlining program config (.component (.provider scoping)) state).2.counters.errors = 0 := by
  have hfits : 1 + node.scopedHeight unfold ≤ config.maxDepth := by
    by_contra hno
    rw [outlining_scoped_error hscoping hsteady hno state] at hok
    cases hok
  obtain ⟨o, o', htwin, hdirect, herrors, hscoping, herrors'⟩ :=
    outlining_scoped_twin hscoping hdirect hsteady hfits state state'
  rw [hdirect, hscoping]
  exact ⟨.ok htwin, herrors, herrors'⟩

omit hscoping in
private theorem succeedsIff_outlining_direct (state : σ) :
    SucceedsIff config (1 + node.unfoldedHeight unfold ≤ config.maxDepth)
      (outlining program config (.component (.producer direct)) state).1 := by
  rw [outlining_eq]
  cases hmax : config.maxDepth with
  | zero =>
    refine ⟨fun h => absurd h (not_le_zero_of_one_le le_self_add), fun _ => ?_⟩
    change Except.error (config.depthError 1) = _
    rw [Config.depthError, hmax]
  | succ levels =>
    obtain ⟨t, hcall, hpending, -⟩ := exec_invoke_producer hdirect
      (resolveFrom program config levels 2) 1 (s := (outlineStart state).toScene) rfl
    rw [exec_outline_component, hcall, one_add_le_succ]
    exact (succeedsIff_outlineFrom (isHeight_unfoldedHeight unfold)
      (show 2 + levels = config.maxDepth + 1 by omega) hsteady.tame
      { outlineStart state with toScene := t } hpending).2.2

end

/-- Whenever a provider that has a tree resolved and returns it renders, a producer that returns the
tree renders too and gives the same, from the same renderer: as markup, as a drained stream, and as
live nodes, with the host left the same. -/
theorem scoped_render_refines {r : MarkupRenderer F} {live : LiveRenderer H}
    {host : Dom.Host F H N} (hr : r.Reachable config) (hlive : live.Reachable host config)
    {node : Node F} (hsteady : program.Steady unfold label node) {scoping direct : F}
    (hscoping : ∀ s, (program.provide scoping 1 config s).Scopes node)
    (hdirect : ∀ s, (program.produce direct s).value.1 = .ok node) (container : Option N)
    (world world' : World σ) :
    (∀ html,
      (r.render program (.component (.provider scoping)) world).value.result = .ok html →
      (r.render program (.component (.producer direct)) world').value.result = .ok html) ∧
    (config.encoding = .utf8 → ∀ items last html,
      Drains (MarkupStream.new r program (.component (.provider scoping)) world).next.value items
        last → Delivers items (.ok html) →
      ∃ items' last', Drains (MarkupStream.new r program (.component (.producer direct))
        world').next.value items' last' ∧ Delivers items' (.ok html)) ∧
    ∀ nodes, (live.render host program (.component (.provider scoping)) container
        world).value.result = .ok nodes →
      (live.render host program (.component (.producer direct)) container world').value.result =
          .ok nodes ∧
        (live.render host program (.component (.producer direct)) container
            world').value.renderer.host =
          (live.render host program (.component (.provider scoping)) container
            world).value.renderer.host := by
  have hsound := hr.sound
  have hsoundlive : live.Sound F config := hlive.sound
  have refines {o : Outline F} := outlining_scoped_ok (o := o) hscoping hdirect hsteady world.state
    world'.state
  refine ⟨fun html hhtml => ?_, fun hencoding items last html hdrains hdelivers => ?_,
    fun nodes hnodes => ?_⟩
  · obtain ⟨o, ho⟩ := hsound.outlining_ok_of_render hhtml
    rw [← hsound.render_twin (refines ho).1, hhtml]
  · obtain ⟨o, ho⟩ := hsound.outlining_ok_of_drain hdrains hdelivers
    obtain ⟨htwin, herrors, herrors'⟩ := refines ho
    obtain ⟨items', last', items'', last'', result, hdrains', hdrains'', hdelivers', hdelivers''⟩ :=
      hsound.drain_twin htwin hencoding herrors herrors'
    obtain ⟨rfl, -⟩ := hdrains.unique hdrains''
    exact ⟨items', last', hdrains', hdelivers''.unique hdelivers ▸ hdelivers'⟩
  · obtain ⟨o, ho⟩ := hsoundlive.outlining_ok_of_render hnodes
    obtain ⟨hresult, hhost⟩ := hsoundlive.render_twin host container (refines ho).1
    rw [hnodes] at hresult
    exact ⟨hresult.symm, (hhost nodes hresult.symm).symm⟩

/-- Providers return what `node` is resolved to, and producers what `unfold` says. -/
def Program.scoping (unfold : String → Node String) (node : Node String) : Program String Unit where
  produce name _ := return (.ok (unfold name), ())
  provide _ _ _ _ := .resolve (return (node, ())) fun n _ => .finish (return (.ok n, ()))
  compute name _ := return (.ok name, ())

private theorem Program.scopes_scoping {unfold : String → Node String} {node : Node String}
    (name : String) (depth : Nat) (config : Config) (s : Unit) :
    ((Program.scoping unfold node).provide name depth config s).Scopes node :=
  .intro rfl fun _ _ => ⟨_, rfl, rfl⟩

private theorem Program.steady_scoping {unfold : String → Node String} {node : Node String}
    (h : ∀ name, ¬Reaches unfold node (.component (.provider name))) :
    (Program.scoping unfold node).Steady unfold id node where
  provider := h
  producer _ _ _ := rfl
  computed _ _ _ _ _ := rfl

def listing : Node String :=
  .element ((Element.new "p").child (.component (.producer "list")))

def unfoldListing : String → Node String
  | "list" => .collection [.text (.str "x"), .text (.str "y")]
  | _ => listing

private theorem Reaches.of_listing {n : Node String} (h : Reaches unfoldListing listing n) :
    n = listing ∨ n = .component (.producer "list") ∨ n = unfoldListing "list" ∨
      ∃ value, n = .text value := by
  induction h with
  | self => exact .inl rfl
  | member _ hmem ih =>
    rcases ih with h | h | h | ⟨_, h⟩ <;> cases h
    rcases List.mem_pair.1 hmem with rfl | rfl
    · exact .inr (.inr (.inr ⟨_, rfl⟩))
    · exact .inr (.inr (.inr ⟨_, rfl⟩))
  | child _ hc ih =>
    rcases ih with h | h | h | ⟨_, h⟩ <;> cases h
    cases hc
    exact .inr (.inl rfl)
  | produced _ ih =>
    rcases ih with h | h | h | ⟨_, h⟩ <;> cases h
    exact .inr (.inr (.inl rfl))

theorem scoped_render_refines_listing :
    ((MarkupRenderer.fresh { maxDepth := 4 }).render (Program.scoping unfoldListing listing)
      (.component (.producer "direct")) { state := (), clock := { reading := id } }).value.result =
        .ok "<p>xy</p>" := by
  have hr : (MarkupRenderer.fresh { maxDepth := 4 } : MarkupRenderer String).Reachable
      { maxDepth := 4 } := .new rfl
  have hlive : (LiveRenderer.fresh { maxDepth := 4 } {} :
      LiveRenderer (Dom.Document String)).Reachable Dom.Document.host { maxDepth := 4 } := .new rfl
  have hsteady : (Program.scoping unfoldListing listing).Steady unfoldListing id listing :=
    Program.steady_scoping fun _ hreaches => by
      rcases hreaches.of_listing with h | h | h | ⟨_, h⟩ <;> cases h
  have hrendered : ((MarkupRenderer.fresh { maxDepth := 4 }).render
      (Program.scoping unfoldListing listing) (.component (.provider "scope"))
      { state := (), clock := { reading := id } }).value.result.toOption = some "<p>xy</p>" := by
    decide +kernel
  apply (scoped_render_refines hr hlive hsteady (Program.scopes_scoping "scope" 1 _) (fun _ => rfl)
    none { state := (), clock := { reading := id } } { state := (), clock := { reading := id } }).1
  generalize ((MarkupRenderer.fresh { maxDepth := 4 }).render
    (Program.scoping unfoldListing listing) (.component (.provider "scope"))
    { state := (), clock := { reading := id } }).value.result = result at hrendered ⊢
  cases result with
  | error e => cases hrendered
  | ok html => exact congrArg Except.ok (Option.some.inj hrendered)

/-- A provider that has a tree resolved renders exactly if resolving it fits below the depth limit,
and a producer that returns the tree exactly if its walk does. The levels are the same where the
walk goes into all children and no collection of children is empty. -/
theorem scoped_succeedsIff_height {r : MarkupRenderer F} {live : LiveRenderer H}
    {host : Dom.Host F H N} (hr : r.Reachable config) (hlive : live.Reachable host config)
    {node : Node F} (hsteady : program.Steady unfold label node) {scoping direct : F}
    (hscoping : ∀ s, (program.provide scoping 1 config s).Scopes node)
    (hdirect : ∀ s, (program.produce direct s).value.1 = .ok node) (container : Option N)
    (world : World σ) :
    (IsScopedHeight unfold (Node.scopedHeight unfold) ∧
      IsHeight unfold (Node.unfoldedHeight unfold) ∧
      node.unfoldedHeight unfold ≤ node.scopedHeight unfold ∧
      ((∀ (e : Element F (Node F)) n, Reaches unfold node (.element e) → e.children = some n →
          e.isEntered = true ∧ n ≠ .collection []) →
        node.scopedHeight unfold = node.unfoldedHeight unfold)) ∧
    (SucceedsIff config (1 + node.scopedHeight unfold ≤ config.maxDepth)
        (r.render program (.component (.provider scoping)) world).value.result ∧
      SucceedsIff config (1 + node.unfoldedHeight unfold ≤ config.maxDepth)
        (r.render program (.component (.producer direct)) world).value.result) ∧
    (SucceedsIff config (1 + node.scopedHeight unfold ≤ config.maxDepth)
        (live.render host program (.component (.provider scoping)) container world).value.result ∧
      SucceedsIff config (1 + node.unfoldedHeight unfold ≤ config.maxDepth)
        (live.render host program (.component (.producer direct)) container
          world).value.result) ∧
    (∃ items last, Drains (MarkupStream.new r program (.component (.provider scoping))
        world).next.value items last ∧
      SucceedsIff config (1 + node.scopedHeight unfold ≤ config.maxDepth) (outcome items)) ∧
    ∃ items last, Drains (MarkupStream.new r program (.component (.producer direct))
        world).next.value items last ∧
      SucceedsIff config (1 + node.unfoldedHeight unfold ≤ config.maxDepth) (outcome items) := by
  have hsound := hr.sound
  have hsoundlive : live.Sound F config := hlive.sound
  have scopes := succeedsIff_outlining_scoping hscoping hdirect hsteady world.state
  have returns : SucceedsIff config _ _ := succeedsIff_outlining_direct hdirect hsteady world.state
  refine ⟨⟨isScopedHeight_scopedHeight unfold, isHeight_unfoldedHeight unfold,
    node.unfoldedHeight_le_scopedHeight, Node.scopedHeight_eq_unfoldedHeight⟩, ⟨?_, ?_⟩, ⟨?_, ?_⟩,
    ?_, ?_⟩
  · exact scopes.of_ending (hsound.ending_render program _ world)
  · exact returns.of_ending (hsound.ending_render program _ world)
  · exact scopes.of_ending (hsoundlive.ending_render host program _ container world)
  · exact returns.of_ending (hsoundlive.ending_render host program _ container world)
  · obtain ⟨items, last, hdrains, hending, -⟩ := hsound.ending_drain program _ world
    exact ⟨items, last, hdrains, scopes.of_ending hending⟩
  · obtain ⟨items, last, hdrains, hending, -⟩ := hsound.ending_drain program _ world
    exact ⟨items, last, hdrains, returns.of_ending hending⟩

def hollow : Element String (Node String) := (Element.new "div").withChildren []

private theorem Reaches.of_hollow {unfold : String → Node String} {n : Node String}
    (h : Reaches unfold (.element hollow) n) : n = .element hollow ∨ n = .collection [] := by
  induction h with
  | self => exact .inl rfl
  | member _ hmem ih =>
    rcases ih with h | h <;> cases h
    cases hmem
  | child _ hc ih =>
    rcases ih with h | h <;> cases h
    cases hc
    exact .inr rfl
  | produced _ ih => rcases ih with h | h <;> cases h

/-- An empty collection of children takes a level when resolved, and none when walked. -/
theorem scoped_succeedsIff_height_hollow :
    let program := Program.scoping (fun _ => .element hollow) (.element hollow)
    ((MarkupRenderer.fresh { maxDepth := 2 }).render program (.component (.provider "scope"))
        { state := (), clock := { reading := id } }).value.result = .error (.depthExceeded 3 2) ∧
      ∃ html, ((MarkupRenderer.fresh { maxDepth := 2 }).render program
        (.component (.producer "direct"))
        { state := (), clock := { reading := id } }).value.result = .ok html := by
  intro program
  have hr : (MarkupRenderer.fresh { maxDepth := 2 } : MarkupRenderer String).Reachable
      { maxDepth := 2 } := .new rfl
  have hlive : (LiveRenderer.fresh { maxDepth := 2 } {} :
      LiveRenderer (Dom.Document String)).Reachable Dom.Document.host { maxDepth := 2 } := .new rfl
  have hsteady : program.Steady (fun _ => .element hollow) id (.element hollow) :=
    Program.steady_scoping fun _ hreaches => by rcases hreaches.of_hollow with h | h <;> cases h
  have hdirect (s : Unit) : (program.produce "direct" s).value.1 = .ok (.element hollow) := rfl
  obtain ⟨⟨hscoped, hwalked, -, -⟩, ⟨hscopes, hreturns⟩, -⟩ := scoped_succeedsIff_height hr hlive
    hsteady (Program.scopes_scoping "scope" 1 _) hdirect none
    { state := (), clock := { reading := id } }
  have childless (h : Node String → ℕ∞) : ⨆ n ∈ ([] : List (Node String)), h n = 0 := by simp
  refine ⟨hscopes.error ?_, hreturns.ok ?_⟩
  · rw [hscoped.element hollow _ rfl, hscoped.collection, childless]
    decide
  · have hchildren : hollow.childNodes = [] := rfl
    rw [hwalked.entered hollow (by decide +kernel), hchildren, childless]
    decide

end TreeRender
