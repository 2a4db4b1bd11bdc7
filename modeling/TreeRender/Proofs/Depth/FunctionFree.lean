import TreeRender.Proofs.Depth.Exact

/-!
# Trees without functions, with any backend

Whatever a backend makes of a tree without functions, and whatever the cache holds, walking the tree
succeeds exactly if it is no higher than the levels that the depth limit allows. No failure is
counted on the way.
-/

namespace TreeRender

open Markup

variable {F σ β U : Type} {program : Program F σ} {config : Config} {backend : Backend F β U}

private theorem succeedsIff_directive_functionFree {directive : Option (Directive F)}
    (h : directive.any Directive.isComputed = false) :
    Walk.SucceedsIff config True (walkDirective program config backend directive) := by
  match directive with
  | none => exact .pure _
  | some (.literal text) => exact .of_ok fun _ => ⟨_, _, rfl, rfl, rfl⟩
  | some (.computed name) => cases h

private theorem succeedsIff_cachedUnit (depth : Nat) (e : Element F (Node F)) :
    Walk.SucceedsIff (σ := σ) config True (cachedUnit config backend depth e) := by
  apply Walk.SucceedsIff.of_ok
  intro s
  by_cases hfits : depth + e.height - 1 ≤ config.maxDepth
  · rw [exec_cachedUnit_fits hfits]
    rcases s.cache.get e.signature s.clock.now with ⟨_ | fragment, cache⟩
    · exact ⟨none, _, rfl, rfl, rfl⟩
    · exact ⟨_, _, rfl, rfl, rfl⟩
  · exact ⟨none, s, exec_cachedUnit_tooHigh hfits s, rfl, rfl⟩

private theorem succeedsIff_storeUnit (e : Element F (Node F)) (unit : U) :
    Walk.SucceedsIff (σ := σ) config True (storeUnit backend e unit) := by
  apply Walk.SucceedsIff.after (.onBackend _)
  rintro (_ | fragment)
  · exact .pure _
  · exact .of_ok fun _ => ⟨(), _, rfl, rfl, rfl⟩

section

variable {below : Node F → Walk σ β U} {levels : Nat}
  (hb : ∀ n, n.containsFunction = false → Walk.SucceedsIff config (n.height ≤ levels) (below n))
  {e : Element F (Node F)} (he : e.containsFunction = false)

include hb he

private theorem succeedsIff_build_functionFree (hvalid : isValidName e.tag = true) :
    Walk.SucceedsIff config (e.height ≤ levels + 1)
      (buildElement program config backend below e) := by
  rw [e.containsFunction_eq, Bool.or_eq_false_iff] at he
  obtain ⟨hown, hchildren⟩ := he
  rw [e.height_eq]
  cases hvoid : isVoid e.tag with
  | true =>
    have hentered : e.isEntered = false := by simp [Element.isEntered, hvoid]
    rw [buildElement_void hvoid, hentered, if_neg Bool.false_ne_true]
    apply Walk.SucceedsIff.after (.onBackend _)
    intro _
    apply ((Walk.SucceedsIff.logged _).after fun _ => .onBackend _).congr
    exact iff_of_true trivial (Nat.le_add_left 1 levels)
  | false =>
    have hentered : e.isEntered = true := by simp [Element.isEntered, hvalid, hvoid]
    have hdirective : e.text.any Directive.isComputed = false := by
      simp only [Element.ownFunction, Bool.or_eq_false_iff] at hown
      exact hown.1
    have children : Walk.SucceedsIff config (∀ n ∈ e.childNodes, n.height ≤ levels)
        (walkEach below e.childNodes) :=
      Walk.SucceedsIff.walkEach e.childNodes fun n hn =>
        hb n (Node.anyContainsFunction_eq_false hchildren n hn)
    rw [buildElement_content hvoid, hentered, if_pos rfl, Nat.add_comm 1, Nat.succ_le_succ_iff,
      Node.maxHeight_le]
    apply Walk.SucceedsIff.after (.onBackend _)
    intro _
    apply Walk.SucceedsIff.after (succeedsIff_directive_functionFree hdirective)
    intro _
    exact children.before fun _ => .onBackend _

private theorem succeedsIff_element_functionFree {depth : Nat}
    (hdepth : depth + levels = config.maxDepth) :
    Walk.SucceedsIff config (e.height ≤ levels + 1)
      (walkElement program config backend below depth e) := by
  cases hvalid : isValidName e.tag with
  | false =>
    have hentered : e.isEntered = false := by simp [Element.isEntered, hvalid]
    rw [walkElement_invalid hvalid, e.height_eq, hentered, if_neg Bool.false_ne_true]
    apply ((Walk.SucceedsIff.logged _).after fun _ => .onBackend _).congr
    exact iff_of_true trivial (Nat.le_add_left 1 levels)
  | true =>
    have built : Walk.SucceedsIff config (e.height ≤ levels + 1)
        (buildElement program config backend below e) :=
      succeedsIff_build_functionFree hb he hvalid
    cases hcached : backend.cachesFragments && config.isCacheable e with
    | false =>
      rw [walkElement_uncached hvalid hcached]
      exact .after (.count Scene.countElement fun _ => ⟨rfl, rfl⟩) fun _ => built
    | true =>
      have missed : Walk.SucceedsIff config (e.height ≤ levels + 1) (do
          Walk.count Scene.countMiss
          let unit ← buildElement program config backend below e
          storeUnit backend e unit
          return unit) := by
        apply Walk.SucceedsIff.after (.count Scene.countMiss fun _ => ⟨rfl, rfl⟩)
        intro _
        exact built.before fun unit => (succeedsIff_storeUnit e unit).after fun _ => .pure unit
      rw [walkElement_cached hvalid hcached]
      apply Walk.SucceedsIff.after (.count Scene.countElement fun _ => ⟨rfl, rfl⟩)
      intro _
      -- a stored fragment is only taken where the element fits
      by_cases hfits : depth + e.height - 1 ≤ config.maxDepth
      · apply Walk.SucceedsIff.after (succeedsIff_cachedUnit depth e)
        rintro (_ | unit)
        · exact missed
        · apply Walk.SucceedsIff.after (.count Scene.countHit fun _ => ⟨rfl, rfl⟩)
          intro _
          exact (Walk.SucceedsIff.pure unit).congr (iff_of_true trivial (by omega))
      · intro s hs
        rw [Walk.exec_bind_ok _ (exec_cachedUnit_tooHigh hfits s)]
        exact missed s hs

end

private theorem succeedsIff_walk_functionFree {levels depth : Nat}
    (hdepth : depth + levels = config.maxDepth + 1) {n : Node F}
    (hn : n.containsFunction = false) :
    Walk.SucceedsIff config (n.height ≤ levels)
      (walkFrom program config backend levels depth n) := by
  rw [Traversal.walkFrom_eq_visit]
  induction levels generalizing depth n with
  | zero =>
    obtain rfl : depth = config.maxDepth + 1 := hdepth
    have hlow : ¬n.height ≤ 0 := Nat.not_le.2 n.one_le_height
    exact fun s hs => ⟨hs, rfl, fun hfits => absurd hfits hlow, fun _ => rfl⟩
  | succ levels ih =>
    rw [Traversal.visit]
    induction n using Node.inductOn with
    | empty =>
      exact (Walk.SucceedsIff.onBackend _).congr (iff_of_true trivial (Nat.le_add_left 1 _))
    | text value =>
      exact (Walk.SucceedsIff.onBackend _).congr (iff_of_true trivial (Nat.le_add_left 1 _))
    | component c => cases hn
    | collection nodes ihnodes =>
      have members := Walk.SucceedsIff.walkEach nodes fun n hmem =>
        ihnodes n hmem (Node.anyContainsFunction_eq_false hn n hmem)
      have hheight : (Node.collection nodes).height ≤ levels + 1 ↔
          ∀ n ∈ nodes, n.height ≤ levels + 1 := by
        rw [← Node.maxHeight_le]
        exact max_le_iff.trans (and_iff_right (Nat.le_add_left 1 _))
      rw [Traversal.visitLevel, Traversal.visitMembers_eq]
      exact (members.before fun _ => .onBackend _).congr hheight.symm
    | element e _ =>
      exact succeedsIff_element_functionFree (fun n hn => ih (by omega) hn) hn (by omega)

/-- With any backend, a render of a tree without functions succeeds exactly if the tree is no higher
than the depth limit, and counts no failure. -/
theorem Engine.render_functionFree (engine : Engine) (program : Program F σ)
    (backend : Backend F β U) {n : Node F} (hn : n.containsFunction = false) (world : World σ)
    (b : β) :
    SucceedsIff engine.config (n.height ≤ engine.config.maxDepth)
        (engine.render program backend n world b).value.result ∧
      (engine.render program backend n world b).value.metrics.counters.errors = 0 := by
  have hlevels : engine.config.levelsAt 1 = engine.config.maxDepth := Nat.add_sub_cancel ..
  have hdepth : 1 + engine.config.levelsAt 1 = engine.config.maxDepth + 1 := by
    rw [hlevels, Nat.add_comm]
  have walks : Walk.SucceedsIff engine.config (n.height ≤ engine.config.levelsAt 1)
      (walk program engine.config backend 1 n) := succeedsIff_walk_functionFree hdepth hn
  obtain ⟨-, herrors, hresult⟩ := walks (engine.start world b).2 rfl
  rw [hlevels] at hresult
  exact ⟨hresult, herrors⟩

end TreeRender
