import TreeRender.Proofs.Depth.Height
import TreeRender.Proofs.Renderer.Endings

/-!
# The depth limit is exact

Where no provider is met, producers always return the same tree and nothing fails, outlining a tree
succeeds exactly if the unfolded tree is no higher than the levels that the depth limit allows. So
renders to markup, drained streams and renders to live nodes all stop at the same height.
-/

namespace TreeRender

open Markup MarkupStream

variable {F H N σ β U α γ : Type} {program : Program F σ} {config : Config} {unfold : F → Node F}

/-- Unfolding the tree meets no provider, the producers that it meets always return what `unfold`
says, and the computed texts that it meets never fail. The functions may well have a state. -/
structure Program.Tame (program : Program F σ) (unfold : F → Node F) (node : Node F) : Prop where
  provider : ∀ name, ¬Meets unfold node (.component (.provider name))
  producer : ∀ name, Meets unfold node (.component (.producer name)) →
    ∀ s, (program.produce name s).value.1 = .ok (unfold name)
  computed : ∀ (e : Element F (Node F)) name, Meets unfold node (.element e) →
    e.isEntered = true → e.text = some (.computed name) →
    ∀ s, ∃ text, (program.compute name s).value.1 = .ok text

private theorem Program.Tame.of_meets {node m : Node F} (h : program.Tame unfold node)
    (hmeets : Meets unfold node m) : program.Tame unfold m where
  provider name hm := h.provider name (hmeets.trans hm)
  producer name hm := h.producer name (hmeets.trans hm)
  computed e name hm := h.computed e name (hmeets.trans hm)

/-- Success if something fits, and the error of the first level past the limit if not. -/
structure SucceedsIff (config : Config) (fits : Prop) (result : Except RenderError α) : Prop where
  ok : fits → ∃ a, result = .ok a
  error : ¬fits → result = .error (.depthExceeded (config.maxDepth + 1) config.maxDepth)

theorem SucceedsIff.of_ending {fits : Prop} {result : Except RenderError α}
    {result' : Except RenderError γ} (hending : ending result = ending result')
    (h : SucceedsIff config fits result') : SucceedsIff config fits result where
  ok hfits := by
    obtain ⟨a, rfl⟩ := h.ok hfits
    exact ending_eq_ok.1 hending
  error hfits := by
    obtain rfl := h.error hfits
    exact ending_eq_error.1 hending

/-- A part of a walk that succeeds if something fits, counts no failure and leaves no error
pending. -/
def Walk.SucceedsIff (config : Config) (fits : Prop) (x : Walk σ β α) : Prop :=
  ∀ s, s.pending = none →
    (x.exec s).2.pending = none ∧ (x.exec s).2.counters.errors = s.counters.errors ∧
      TreeRender.SucceedsIff config fits (x.exec s).1

namespace Walk.SucceedsIff

variable {P Q : Prop} {x : Walk σ β α}

theorem congr (h : Walk.SucceedsIff config P x) (hiff : P ↔ Q) : Walk.SucceedsIff config Q x :=
  propext hiff ▸ h

theorem of_ok (h : ∀ s, ∃ a t, x.exec s = (.ok a, t) ∧ t.pending = s.pending ∧
    t.counters.errors = s.counters.errors) : Walk.SucceedsIff config True x := by
  intro s hs
  obtain ⟨a, t, hx, ht, herrors⟩ := h s
  rw [hx]
  exact ⟨ht.trans hs, herrors, fun _ => ⟨a, rfl⟩, fun hno => absurd trivial hno⟩

theorem pure (a : α) : Walk.SucceedsIff config True (Pure.pure a : Walk σ β α) :=
  of_ok fun s => ⟨a, s, rfl, rfl, rfl⟩

theorem onBackend (x : StateT β Logged α) :
    Walk.SucceedsIff config True (Walk.onBackend x : Walk σ β α) :=
  of_ok fun _ => ⟨_, _, rfl, rfl, rfl⟩

theorem logged (x : Logged α) : Walk.SucceedsIff config True (liftM x : Walk σ β α) :=
  of_ok fun _ => ⟨_, _, rfl, rfl, rfl⟩

theorem count (f : Scene σ → Scene σ)
    (hf : ∀ s, (f s).pending = s.pending ∧ (f s).counters.errors = s.counters.errors) :
    Walk.SucceedsIff config True (Walk.count f : Walk σ β Unit) :=
  of_ok fun s => ⟨(), { s with toScene := f s.toScene }, rfl, hf s.toScene⟩

theorem bind {f : α → Walk σ β γ} (hx : Walk.SucceedsIff config P x)
    (hf : ∀ a, Walk.SucceedsIff config Q (f a)) :
    Walk.SucceedsIff config (P ∧ Q) (x >>= f) := by
  intro s hs
  obtain ⟨hpending, herrors, hresult⟩ := hx s hs
  by_cases hp : P
  · obtain ⟨a, ha⟩ := hresult.ok hp
    rw [exec_bind_ok f (Prod.ext ha rfl)]
    obtain ⟨hpending', herrors', hresult'⟩ := hf a _ hpending
    exact ⟨hpending', herrors'.trans herrors, fun h => hresult'.ok h.2,
      fun h => hresult'.error fun hq => h ⟨hp, hq⟩⟩
  · have he := hresult.error hp
    rw [exec_bind_error f (Prod.ext he rfl)]
    exact ⟨hpending, herrors, fun h => absurd h.1 hp, fun _ => rfl⟩

theorem after {f : α → Walk σ β γ} (hx : Walk.SucceedsIff config True x)
    (hf : ∀ a, Walk.SucceedsIff config Q (f a)) : Walk.SucceedsIff config Q (x >>= f) :=
  (hx.bind hf).congr (iff_of_eq (true_and _))

theorem before {f : α → Walk σ β γ} (hx : Walk.SucceedsIff config P x)
    (hf : ∀ a, Walk.SucceedsIff config True (f a)) : Walk.SucceedsIff config P (x >>= f) :=
  (hx.bind hf).congr (iff_of_eq (and_true _))

theorem walkEach {f : Node F → Walk σ β U} {fits : Node F → Prop} (nodes : List (Node F))
    (h : ∀ n ∈ nodes, Walk.SucceedsIff config (fits n) (f n)) :
    Walk.SucceedsIff config (∀ n ∈ nodes, fits n) (TreeRender.walkEach f nodes) := by
  induction nodes with
  | nil => exact (pure _).congr (by simp)
  | cons n rest ih =>
    have hrest : Walk.SucceedsIff config (∀ m ∈ rest, fits m) (TreeRender.walkEach f rest) :=
      ih fun m hm => h m (by simp [hm])
    apply ((h n (by simp)).bind fun u => hrest.before fun us => pure (u :: us)).congr
    simp only [List.forall_mem_cons]

end Walk.SucceedsIff

section

variable {h : Node F → ℕ∞} (hh : IsHeight unfold h)

private theorem succeedsIff_walkDirective {e : Element F (Node F)} {node : Node F}
    (htame : program.Tame unfold node) (hmeets : Meets unfold node (.element e))
    (he : e.isEntered = true) :
    Walk.SucceedsIff config True (walkDirective program config Outline.backend e.text) := by
  apply Walk.SucceedsIff.of_ok
  intro s
  match htext : e.text with
  | none => exact ⟨_, _, rfl, rfl, rfl⟩
  | some (.literal text) => exact ⟨_, _, rfl, rfl, rfl⟩
  | some (.computed name) =>
    obtain ⟨text, hcomputed⟩ := htame.computed e name hmeets he htext s.state
    simp only [walkDirective]
    rw [Walk.exec_bind, Walk.exec_onScene, exec_directiveText_computed]
    simp only [hcomputed]
    exact ⟨_, _, rfl, rfl, rfl⟩

theorem exec_invoke_producer {name : F} {node : Node F}
    (hproducer : ∀ s, (program.produce name s).value.1 = .ok node)
    (resolve : Node F → Calls σ (Node F)) (depth : Nat) {s : Scene σ} (hs : s.pending = none) :
    ∃ t, (invoke program config resolve depth (.producer name)).exec s = (.ok node, t) ∧
      t.pending = none ∧ t.counters = s.counters := by
  rw [exec_invoke, exec_callComponent_producer]
  simp only [hproducer]
  have hpending : (s.enterCall depth).pending = none := hs
  simp only [hpending]
  exact ⟨_, rfl, rfl, rfl⟩

include hh

private theorem one_le_of_tame {node : Node F} (htame : program.Tame unfold node) : 1 ≤ h node := by
  cases node with
  | empty => exact hh.empty.ge
  | text value => exact (hh.text value).ge
  | component c =>
    cases c with
    | producer name => exact (hh.producer name).ge.trans' le_self_add
    | provider name => exact absurd .self (htame.provider name)
  | collection nodes => exact (hh.collection nodes).ge.trans' (le_max_left _ _)
  | element e =>
    cases he : e.isEntered with
    | false => exact (hh.unentered e he).ge
    | true => exact (hh.entered e he).ge.trans' le_self_add

private theorem succeedsIff_element {below : Node F → Walk σ Unit (Outline F)} {levels : Nat}
    (hb : ∀ n, program.Tame unfold n → Walk.SucceedsIff config (h n ≤ levels) (below n))
    (depth : Nat) {e : Element F (Node F)} (htame : program.Tame unfold (.element e)) :
    Walk.SucceedsIff config (h (.element e) ≤ (levels + 1 : Nat))
      (walkElement program config Outline.backend below depth e) := by
  cases hvalid : isValidName e.tag with
  | false =>
    rw [walkElement_invalid hvalid, hh.unentered e (by simp [Element.isEntered, hvalid])]
    apply ((Walk.SucceedsIff.logged _).after fun _ => .onBackend _).congr
    exact iff_of_true trivial one_le_succ
  | true =>
    rw [walkElement_uncached hvalid rfl]
    apply Walk.SucceedsIff.after (.count Scene.countElement fun _ => ⟨rfl, rfl⟩)
    intro _
    cases hvoid : isVoid e.tag with
    | true =>
      rw [buildElement_void hvoid, hh.unentered e (by simp [Element.isEntered, hvoid])]
      apply Walk.SucceedsIff.after (.onBackend _)
      intro _
      apply ((Walk.SucceedsIff.logged _).after fun _ => .onBackend _).congr
      exact iff_of_true trivial one_le_succ
    | false =>
      have he : e.isEntered = true := by simp [Element.isEntered, hvalid, hvoid]
      have children : Walk.SucceedsIff config (∀ n ∈ e.childNodes, h n ≤ levels)
          (walkEach below e.childNodes) :=
        Walk.SucceedsIff.walkEach e.childNodes fun n hn =>
          hb n (htame.of_meets (.child .self he hn))
      rw [buildElement_content hvoid, hh.entered e he, one_add_le_succ, iSup₂_le_iff]
      apply Walk.SucceedsIff.after (.onBackend _)
      intro _
      apply Walk.SucceedsIff.after (succeedsIff_walkDirective htame .self he)
      intro _
      exact children.before fun _ => .onBackend _

theorem succeedsIff_outlineFrom {levels depth : Nat}
    (hdepth : depth + levels = config.maxDepth + 1) {node : Node F}
    (htame : program.Tame unfold node) :
    Walk.SucceedsIff config (h node ≤ levels) (outlineFrom program config levels depth node) := by
  rw [outlineFrom, Traversal.walkFrom_eq_visit]
  induction levels generalizing depth node with
  | zero =>
    have hdepth' : depth = config.maxDepth + 1 := hdepth
    have hlow := not_le_zero_of_one_le (one_le_of_tame hh htame)
    intro s hs
    exact ⟨hs, rfl, fun hfits => absurd hfits hlow, fun _ => by rw [hdepth']; rfl⟩
  | succ levels ih =>
    have hbelow (n : Node F) (hn : program.Tame unfold n) : Walk.SucceedsIff config (h n ≤ levels)
        ((Traversal.ofBackend program config Outline.backend).visit program config levels
          (depth + 1) n) := ih (by omega) hn
    rw [Traversal.visit]
    induction node using Node.inductOn with
    | empty =>
      rw [hh.empty]
      exact (Walk.SucceedsIff.onBackend _).congr (iff_of_true trivial one_le_succ)
    | text value =>
      rw [hh.text]
      exact (Walk.SucceedsIff.onBackend _).congr (iff_of_true trivial one_le_succ)
    | component c =>
      cases c with
      | provider name => exact absurd .self (htame.provider name)
      | producer name =>
        intro s hs
        obtain ⟨t, hcall, ht, hcounters⟩ := exec_invoke_producer (htame.producer name .self)
          (resolveFrom program config levels (depth + 1)) depth hs
        obtain ⟨hpending, herrors, hresult⟩ :=
          hbelow (unfold name) (htame.of_meets (.produced .self)) { s with toScene := t } ht
        rw [Traversal.visitLevel, Walk.exec_bind, Walk.exec_onScene, hcall, hh.producer,
          one_add_le_succ]
        exact ⟨hpending, herrors.trans (congrArg Counters.errors hcounters), hresult⟩
    | collection nodes ihnodes =>
      rw [Traversal.visitLevel, Traversal.visitMembers_eq, hh.collection, max_le_iff, iSup₂_le_iff]
      have members := Walk.SucceedsIff.walkEach nodes fun n hn =>
        ihnodes n hn (htame.of_meets (.member .self hn))
      exact (members.before fun _ => .onBackend _).congr (and_iff_right one_le_succ).symm
    | element e _ => exact succeedsIff_element hh hbelow depth htame

private theorem succeedsIff_outlining {node : Node F} (htame : program.Tame unfold node) (state : σ)
    :
    SucceedsIff config (h node ≤ config.maxDepth) (outlining program config node state).1 :=
  (succeedsIff_outlineFrom hh (Nat.add_comm _ _) htame (outlineStart state) rfl).2.2

end

private theorem Backend.Realizes.walk_ok_iff {backend : Backend F β U}
    {R : β → β → U → Outline F → Prop}
    (h : backend.Realizes config.errorFallback R) {e : Element F (Node F)}
    (hfree : e.containsFunction = false) (depth : Nat) {s : WalkState σ β}
    (hcache : s.cache.Valid F config) :
    (∃ u, ((walk program config backend depth (.element e)).exec s).1 = .ok u) ↔
      depth + e.height - 1 ≤ config.maxDepth := by
  have hpos : 1 ≤ e.height := (Node.element e).one_le_height
  by_cases hdepth : depth ≤ config.maxDepth + 1
  · have hlevels : depth + config.levelsAt depth = config.maxDepth + 1 := by
      unfold Config.levelsAt
      omega
    let t : WalkState σ Unit :=
      { toScene := s.toScene, clock := s.clock, cache := s.cache, backend := () }
    have agree : Walk.Agree (WalkState.Beside config F) (R s.backend)
        ((walk program config backend depth (.element e)).exec s)
        ((outlineFrom program config (config.levelsAt depth) depth (.element e)).exec t) :=
      h.tracks hlevels (.element e) s.backend s t rfl ⟨rfl, rfl, rfl, rfl, hcache⟩
    obtain ⟨k, hk⟩ := exec_outlineFrom_functionFree program config hfree (config.levelsAt depth)
      depth t
    have hheight : (Node.element e).height = e.height := rfl
    have hfits : e.height ≤ config.levelsAt depth ↔ depth + e.height - 1 ≤ config.maxDepth := by
      omega
    rw [← ending_eq_ok, agree.ending, hk, hheight, ← hfits]
    by_cases hlow : e.height ≤ config.levelsAt depth
    · rw [if_pos hlow]
      exact iff_of_true rfl hlow
    · rw [if_neg hlow]
      exact iff_of_false (fun h => nomatch h) hlow
  · have hzero : config.levelsAt depth = 0 := by
      unfold Config.levelsAt
      omega
    have hnot : ¬depth + e.height - 1 ≤ config.maxDepth := by omega
    refine iff_of_false ?_ hnot
    rw [walk, hzero]
    rintro ⟨u, hu⟩
    cases hu

/-- Renders succeed exactly if the height of the unfolded tree is within the depth limit, whatever
the cache holds. For elements without functions this is the height that the cache goes by. -/
theorem render_succeedsIff_height {r : MarkupRenderer F} {live : LiveRenderer H}
    {host : Dom.Host F H N} (hr : r.Reachable config) (hlive : live.Reachable host config)
    {node : Node F} (htame : program.Tame unfold node) (container : Option N) (world : World σ) :
    (IsHeight unfold (Node.unfoldedHeight unfold) ∧
      ∀ name, Meets unfold (unfold name) (.component (.producer name)) →
        (Node.component (.producer name)).unfoldedHeight unfold = ⊤) ∧
    SucceedsIff config (node.unfoldedHeight unfold ≤ config.maxDepth)
      (r.render program node world).value.result ∧
    SucceedsIff config (node.unfoldedHeight unfold ≤ config.maxDepth)
      (live.render host program node container world).value.result ∧
    (∃ items last, Drains (MarkupStream.new r program node world).next.value items last ∧
      SucceedsIff config (node.unfoldedHeight unfold ≤ config.maxDepth) (outcome items)) ∧
    ∀ e : Element F (Node F), e.containsFunction = false →
      (Node.element e).unfoldedHeight unfold = e.height ∧
      (∀ depth (s : WalkState σ (Registry F)), s.cache.Valid F config →
        ((∃ html, ((walk program config (backend config.enableHydration) depth
            (.element e)).exec s).1 = .ok html) ↔ depth + e.height - 1 ≤ config.maxDepth)) ∧
      ∀ depth (s : WalkState σ (Dom.HostState H)), s.cache.Valid F config →
        ((∃ nodes, ((walk program config (Dom.backend host config.defaultNamespace) depth
            (.element e)).exec s).1 = .ok nodes) ↔ depth + e.height - 1 ≤ config.maxDepth) := by
  have hsound := hr.sound
  have hsoundlive : live.Sound F config := hlive.sound
  have hheight := isHeight_unfoldedHeight unfold
  have outlined : SucceedsIff config _ (outlining program config node world.state).1 :=
    succeedsIff_outlining hheight htame world.state
  refine ⟨⟨hheight, fun name => hheight.eq_top⟩, ?_, ?_, ?_, fun e he => ⟨?_, ?_, ?_⟩⟩
  · exact outlined.of_ending (hsound.ending_render program node world)
  · exact outlined.of_ending (hsoundlive.ending_render host program node container world)
  · obtain ⟨items, last, hdrains, hending, -⟩ := hsound.ending_drain program node world
    exact ⟨items, last, hdrains, outlined.of_ending hending⟩
  · exact hheight.eq_height he
  · exact fun depth s hs => (Markup.realizes _ _).walk_ok_iff he depth hs
  · exact fun depth s hs => (LiveRenderer.realizes_any host _ _).walk_ok_iff he depth hs

/-- An element around a component that gives such an element again. -/
def nest (name : String) : Node String :=
  .element ((Element.new "a").child (.component (.producer name)))

def Program.nesting : Program String Nat where
  produce name calls := return (.ok (nest name), calls + 1)
  provide _ _ _ calls := .finish (return (.ok .empty, calls))
  compute name calls := return (.ok name, calls)

private theorem Meets.of_nesting {name : String} {n : Node String}
    (h : Meets nest (.component (.producer name)) n) :
    n = .component (.producer name) ∨ n = nest name := by
  induction h with
  | self => exact .inl rfl
  | member _ _ ih => rcases ih with h | h <;> cases h
  | child _ _ hmem ih =>
    rcases ih with h | h
    · cases h
    · cases h
      exact .inl (List.mem_singleton.1 hmem)
  | produced _ ih =>
    rcases ih with h | h
    · cases h
      exact .inr rfl
    · cases h

private theorem Program.tame_nesting (name : String) :
    Program.nesting.Tame nest (.component (.producer name)) where
  provider _ hmeets := by rcases hmeets.of_nesting with h | h <;> cases h
  producer _ _ _ := rfl
  computed _ name _ _ _ _ := ⟨name, rfl⟩

theorem render_succeedsIff_height_nesting :
    ((MarkupRenderer.fresh { maxDepth := 3 }).render Program.nesting
        (.component (.producer "again")) { state := 0, clock := { reading := id } }).value.result =
      .error (.depthExceeded 4 3) := by
  have hr : (MarkupRenderer.fresh { maxDepth := 3 } : MarkupRenderer String).Reachable
      { maxDepth := 3 } := .new rfl
  have hlive : (LiveRenderer.fresh { maxDepth := 3 } {} :
      LiveRenderer (Dom.Document String)).Reachable Dom.Document.host { maxDepth := 3 } := .new rfl
  obtain ⟨⟨-, hinfinite⟩, hrender, -⟩ := render_succeedsIff_height hr hlive
    (Program.tame_nesting "again") none { state := 0, clock := { reading := id } }
  have hmeets : Meets nest (nest "again") (.component (.producer "again")) :=
    .child .self (by decide +kernel) (List.mem_singleton.2 rfl)
  apply hrender.error
  rw [hinfinite "again" hmeets, not_le]
  exact ENat.natCast_lt_top 3

end TreeRender
