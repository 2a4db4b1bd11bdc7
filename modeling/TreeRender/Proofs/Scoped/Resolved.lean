import TreeRender.Proofs.Depth.Exact
import TreeRender.Proofs.Scoped.Height

/-!
# What a scope resolves a tree to

Where the functions in a tree are pure and do not fail, a provider that has it resolved gets the
tree with each producer replaced by what it comes to, as long as that fits below the depth limit.
If it does not fit, the provider's call ends with the error of the first level past the limit.
-/

namespace TreeRender

variable {F σ : Type} {program : Program F σ} {config : Config} {unfold : F → Node F}
  {label : F → String}

/-- The functions that resolving a tree reaches are pure and do not fail: there is no provider,
producers return what `unfold` says, and computed texts are what `label` says. They may well have a
state, as long as nothing shows of it. -/
structure Program.Steady (program : Program F σ) (unfold : F → Node F) (label : F → String)
    (node : Node F) : Prop where
  provider : ∀ name, ¬Reaches unfold node (.component (.provider name))
  producer : ∀ name, Reaches unfold node (.component (.producer name)) →
    ∀ s, (program.produce name s).value.1 = .ok (unfold name)
  computed : ∀ (e : Element F (Node F)) name, Reaches unfold node (.element e) →
    e.text = some (.computed name) → ∀ s, (program.compute name s).value.1 = .ok (label name)

theorem Program.Steady.of_reaches {node n : Node F} (h : program.Steady unfold label node)
    (hreaches : Reaches unfold node n) : program.Steady unfold label n where
  provider name hn := h.provider name (hreaches.trans hn)
  producer name hn := h.producer name (hreaches.trans hn)
  computed e name hn := h.computed e name (hreaches.trans hn)

theorem Program.Steady.tame {node : Node F} (h : program.Steady unfold label node) :
    program.Tame unfold node where
  provider name hmeets := h.provider name hmeets.reaches
  producer name hmeets := h.producer name hmeets.reaches
  computed e name hmeets _ htext s := ⟨label name, h.computed e name hmeets.reaches htext s⟩

mutual

/-- One level of a resolved tree; `below` resolves the nodes of the next. -/
def Node.resolvedLevel (unfold : F → Node F) (below : Node F → Node F) : Node F → Node F
  | .empty => .empty
  | .text value => .text value
  | .component (.producer name) => below (unfold name)
  | .component (.provider _) => .empty
  | .collection nodes => .collection (Node.resolvedMembers unfold below nodes)
  | .element e =>
    match e.children with
    | none => .element e
    | some child => .element (e.withChild (below child))

def Node.resolvedMembers (unfold : F → Node F) (below : Node F → Node F) :
    List (Node F) → List (Node F)
  | [] => []
  | n :: rest => n.resolvedLevel unfold below :: Node.resolvedMembers unfold below rest

end

/-- A tree with its producers replaced by what they come to, down to so many levels. -/
def Node.resolvedFrom (unfold : F → Node F) : (levels : Nat) → Node F → Node F
  | 0, _ => .empty
  | levels + 1, node => node.resolvedLevel unfold (Node.resolvedFrom unfold levels)

theorem Node.resolvedFrom_collection (levels : Nat) (nodes : List (Node F)) :
    (Node.collection nodes).resolvedFrom unfold (levels + 1) =
      .collection (nodes.map (·.resolvedFrom unfold (levels + 1))) := by
  have members : Node.resolvedMembers unfold (Node.resolvedFrom unfold levels) nodes =
      nodes.map (·.resolvedFrom unfold (levels + 1)) := by
    induction nodes with
    | nil => rfl
    | cons n rest ih => rw [Node.resolvedMembers, ih, List.map_cons, Node.resolvedFrom]
  rw [← members, Node.resolvedFrom, Node.resolvedLevel]

theorem Node.resolvedFrom_childless (levels : Nat) {e : Element F (Node F)}
    (hc : e.children = none) :
    (Node.element e).resolvedFrom unfold (levels + 1) = .element e := by
  rw [Node.resolvedFrom, Node.resolvedLevel, hc]

theorem Node.resolvedFrom_element (levels : Nat) {e : Element F (Node F)} {child : Node F}
    (hc : e.children = some child) : (Node.element e).resolvedFrom unfold (levels + 1) =
      .element (e.withChild (child.resolvedFrom unfold levels)) := by
  rw [Node.resolvedFrom, Node.resolvedLevel, hc]

/-- Calls that count nothing, and come to `a` if something fits. If not, they leave the error of the
first level past the limit pending. -/
def Calls.ResolvesIff {α : Type} (config : Config) (fits : Prop) (a : α) (x : Calls σ α) : Prop :=
  ∀ s, s.pending = none →
    (x.exec s).2.counters = s.counters ∧
    (fits → (x.exec s).1 = a ∧ (x.exec s).2.pending = none) ∧
    (¬fits → (x.exec s).2.pending = some (config.depthError (config.maxDepth + 1)))

theorem Calls.ResolvesIff.pure {α : Type} {fits : Prop} (hfits : fits) (a : α) :
    Calls.ResolvesIff config fits a (Pure.pure a : Calls σ α) :=
  fun _ hs => ⟨rfl, fun _ => ⟨rfl, hs⟩, fun hno => absurd hfits hno⟩

private theorem Calls.ResolvesIff.bind_pure {α β : Type} {fits : Prop} {a : α} {x : Calls σ α}
    (h : Calls.ResolvesIff config fits a x) (f : α → β) :
    Calls.ResolvesIff config fits (f a) (do return f (← x)) := by
  intro s hs
  obtain ⟨hcounters, hok, herror⟩ := h s hs
  exact ⟨hcounters, fun hfits => ⟨congrArg f (hok hfits).1, (hok hfits).2⟩, herror⟩

private theorem Calls.ResolvesIff.unlessPending {fits : Prop} {node : Node F} {x : Calls σ (Node F)}
    (h : Calls.ResolvesIff config fits node x) :
    Calls.ResolvesIff config fits node (TreeRender.unlessPending x) := by
  intro s hs
  rw [exec_unlessPending, if_neg (by rw [hs]; exact Bool.false_ne_true)]
  exact h s hs

theorem exec_resolveMembers_pending {s : Scene σ} {e : RenderError} (hs : s.pending = some e)
    (levels depth : Nat) (nodes : List (Node F)) :
    ((resolveMembers program config (resolveFrom program config levels (depth + 1)) depth
      nodes).exec s).2 = s := by
  induction nodes with
  | nil => rfl
  | cons n rest ih =>
    have hfirst : (resolveLevel program config (resolveFrom program config levels (depth + 1)) depth
        n).exec s = (.empty, s) := exec_resolveFrom_pending hs (levels + 1) depth n
    simp only [resolveMembers, Calls.exec_bind, Calls.exec_pure, hfirst, ih]

private theorem resolvesIff_resolveMembers {levels depth : Nat} {nodes : List (Node F)}
    (h : ∀ n ∈ nodes, Calls.ResolvesIff config (FitsScope unfold (levels + 1) n)
      (n.resolvedFrom unfold (levels + 1)) (resolveFrom program config (levels + 1) depth n)) :
    Calls.ResolvesIff config (∀ n ∈ nodes, FitsScope unfold (levels + 1) n)
      (nodes.map (·.resolvedFrom unfold (levels + 1)))
      (resolveMembers program config (resolveFrom program config levels (depth + 1)) depth
        nodes) := by
  induction nodes with
  | nil => exact .pure (by simp) []
  | cons n rest ih =>
    intro s hs
    obtain ⟨hcounters, hok, herror⟩ := h n (by simp) s hs
    rw [resolveFrom] at hcounters hok herror
    simp only [resolveMembers, Calls.exec_bind, Calls.exec_pure, List.forall_mem_cons]
    generalize (resolveLevel program config (resolveFrom program config levels (depth + 1)) depth
      n).exec s = p at hcounters hok herror ⊢
    by_cases hn : FitsScope unfold (levels + 1) n
    · obtain ⟨hfirst, hpending⟩ := hok hn
      obtain ⟨hcounters', hok', herror'⟩ := ih (fun m hm => h m (by simp [hm])) p.2 hpending
      refine ⟨hcounters'.trans hcounters, fun hfits => ?_, fun hno => ?_⟩
      · obtain ⟨hrest, hpending'⟩ := hok' hfits.2
        exact ⟨congrArg₂ List.cons hfirst hrest, hpending'⟩
      · exact herror' fun hrest => hno ⟨hn, hrest⟩
    · -- The error of the first member is pending, so the others are passed over.
      rw [exec_resolveMembers_pending (herror hn)]
      exact ⟨hcounters, fun hfits => absurd hfits.1 hn, fun _ => herror hn⟩

private theorem resolvesIff_resolveFrom {levels depth : Nat}
    (hdepth : depth + levels = config.maxDepth + 1)
    {node : Node F} (hsteady : program.Steady unfold label node) :
    Calls.ResolvesIff config (FitsScope unfold levels node) (node.resolvedFrom unfold levels)
      (resolveFrom program config levels depth node) := by
  induction levels generalizing depth node with
  | zero =>
    obtain rfl : depth = config.maxDepth + 1 := hdepth
    intro s hs
    rw [resolveFrom, exec_unlessPending, if_neg (by rw [hs]; exact Bool.false_ne_true)]
    refine ⟨rfl, fun hfits => absurd hfits.pos (Nat.not_succ_le_zero 0), fun _ => ?_⟩
    change s.pending.or _ = _
    rw [hs]
    rfl
  | succ levels ih =>
    have hdepth' : depth + 1 + levels = config.maxDepth + 1 := by omega
    induction node using Node.inductOn with
    | empty => exact Calls.ResolvesIff.unlessPending (.pure .empty _)
    | text value => exact Calls.ResolvesIff.unlessPending (.pure .text _)
    | component c =>
      cases c with
      | provider name => exact absurd .self (hsteady.provider name)
      | producer name =>
        apply Calls.ResolvesIff.unlessPending
        intro s hs
        obtain ⟨t, hcall, ht, hcounters⟩ := exec_invoke_producer (hsteady.producer name .self)
          (resolveFrom program config levels (depth + 1)) depth hs
        obtain ⟨hcounters', hok, herror⟩ :=
          ih hdepth' (hsteady.of_reaches (.produced .self)) t ht
        rw [Calls.exec_bind, hcall]
        refine ⟨hcounters'.trans hcounters, fun hfits => ?_, fun hno => ?_⟩
        · cases hfits with
          | producer hfits => exact hok hfits
        · exact herror fun hfits => hno (.producer hfits)
    | collection nodes ihnodes =>
      have members := resolvesIff_resolveMembers fun n hn =>
        ihnodes n hn (hsteady.of_reaches (.member .self hn))
      rw [Node.resolvedFrom_collection]
      apply Calls.ResolvesIff.unlessPending
      intro s hs
      obtain ⟨hcounters, hok, herror⟩ := members.bind_pure Node.collection s hs
      refine ⟨hcounters, fun hfits => ?_, fun hno => herror fun hfits => hno (.collection hfits)⟩
      cases hfits with
      | collection hfits => exact hok hfits
    | element e _ =>
      apply Calls.ResolvesIff.unlessPending
      cases hc : e.children with
      | none =>
        rw [Node.resolvedFrom_childless levels hc]
        exact .pure (.element fun n hn => by rw [hc] at hn; cases hn) _
      | some child =>
        rw [Node.resolvedFrom_element levels hc]
        have below := (ih hdepth' (hsteady.of_reaches (.child .self hc))).bind_pure fun resolved =>
          Node.element (e.withChild resolved)
        intro s hs
        obtain ⟨hcounters, hok, herror⟩ := below s hs
        refine ⟨hcounters, fun hfits => ?_, fun hno => herror fun hfits => hno (.element ?_)⟩
        · cases hfits with
          | element hfits => exact hok (hfits child hc)
        · intro n hn
          rw [hc] at hn
          cases hn
          exact hfits

/-- A provider's call that has a node resolved and returns what comes of it. -/
inductive Script.Scopes (node : Node F) : Script F σ → Prop
  | intro {request : Logged (Node F × σ)} {resume : Node F → σ → Script F σ} :
    request.value.1 = node →
    (∀ resolved s, ∃ outcome : Logged (Except Failure (Node F) × σ),
      resume resolved s = .finish outcome ∧ outcome.value.1 = .ok resolved) →
    Scopes node (.resolve request resume)

private theorem Script.Scopes.exec_runScript {node : Node F} {script : Script F σ}
    (h : script.Scopes node)
    (resolve : Node F → Calls σ (Node F)) (s : Scene σ) : ∃ before after : σ,
      (runScript resolve script).exec s =
        (.ok ((resolve node).exec { s with state := before }).1,
          { ((resolve node).exec { s with state := before }).2 with state := after }) := by
  obtain ⟨rfl, hresume⟩ := h
  rename_i request resume
  obtain ⟨outcome, hfinish, hvalue⟩ :=
    hresume ((resolve request.value.1).exec { s with state := request.value.2 }).1
      ((resolve request.value.1).exec { s with state := request.value.2 }).2.state
  refine ⟨request.value.2, outcome.value.2, ?_⟩
  rw [exec_runScript_resolve]
  simp only [hfinish]
  rw [exec_runScript_finish, hvalue]

/-- Calling a provider that has a tree resolved gives the resolved tree if that fits below the
provider, and the error of the first level past the limit if not. -/
theorem exec_invoke_scopes {name : F} {node : Node F} {levels depth : Nat}
    (hscopes : ∀ s, (program.provide name depth config s).Scopes node)
    (hdepth : depth + 1 + levels = config.maxDepth + 1)
    (hsteady : program.Steady unfold label node) {s : Scene σ} (hs : s.pending = none) :
    ∃ result t, (invoke program config (resolveFrom program config levels (depth + 1)) depth
        (.provider name)).exec s = (result, t) ∧ t.pending = none ∧ t.counters = s.counters ∧
      (FitsScope unfold levels node → result = .ok (node.resolvedFrom unfold levels)) ∧
      (¬FitsScope unfold levels node →
        result = .error (config.depthError (config.maxDepth + 1))) := by
  obtain ⟨before, after, hrun⟩ := (hscopes s.state).exec_runScript
    (resolveFrom program config levels (depth + 1)) (s.enterCall depth)
  obtain ⟨hcounters, hok, herror⟩ := resolvesIff_resolveFrom hdepth hsteady
    { s.enterCall depth with state := before } hs
  have hcall := exec_invoke program config (resolveFrom program config levels (depth + 1)) depth
    (.provider name) s
  rw [exec_callComponent_provider] at hcall
  change (runScript _ (program.provide name depth config s.state)).exec _ = _ at hrun
  have hstate : (s.enterCall depth).state = s.state := rfl
  rw [hstate, hrun] at hcall
  generalize (resolveFrom program config levels (depth + 1) node).exec
    { s.enterCall depth with state := before } = p at hcounters hok herror hcall
  by_cases hfits : FitsScope unfold levels node
  · obtain ⟨hresolved, hpending⟩ := hok hfits
    simp only [hpending] at hcall
    exact ⟨_, _, hcall, rfl, hcounters, fun _ => congrArg Except.ok hresolved,
      fun hno => absurd hfits hno⟩
  · simp only [herror hfits] at hcall
    exact ⟨_, _, hcall, rfl, hcounters, fun h => absurd h hfits, fun _ => rfl⟩

end TreeRender
