import TreeRender.Proofs.Evaluation

/-!
# Fatal errors inside of providers

While a provider has nodes resolved, the depth limit may be passed, or a component may fail that is
to surface. Neither can be raised there. `MeetsFatal` follows the calls to the place where that
happens, through any number of providers and whatever each does with what it gets. From there on
nothing is called any more, and the error is what is left pending at the end.
-/

namespace TreeRender

variable {F σ α : Type}

/-- What goes on inside of a provider, with the number of levels that the depth limit allows. -/
inductive Activity (F σ : Type) where
  | resolve (levels depth : Nat) (node : Node F)
  | members (levels depth : Nat) (nodes : List (Node F))
  | call (levels depth : Nat) (c : Component F)
  | run (levels depth : Nat) (script : Script F σ)

section

variable (program : Program F σ) (config : Config)

def Activity.leaves : Activity F σ → Scene σ → Scene σ
  | .resolve levels depth node, s => ((resolveFrom program config levels depth node).exec s).2
  | .members levels depth nodes, s =>
    ((resolveMembers program config (resolveFrom program config levels (depth + 1)) depth
      nodes).exec s).2
  | .call levels depth c, s =>
    ((callComponent program config (resolveFrom program config levels (depth + 1)) depth c).exec
      (s.enterCall depth)).2
  | .run levels depth script, s =>
    ((runScript (resolveFrom program config levels depth) script).exec s).2

/-- An activity that begins at a scene comes to a node past the depth limit, or to a failure that is
to surface. This happens at the scene given last. -/
inductive MeetsFatal : Activity F σ → Scene σ → RenderError → Scene σ → Prop
  | tooDeep {depth node s} : s.pending = none →
    MeetsFatal (.resolve 0 depth node) s (config.depthError depth) s
  | failed {levels depth c s cause t} : s.pending = none → config.throwOnError = true →
    (invoke program config (resolveFrom program config levels (depth + 1)) depth c).exec s =
      (.error (.failed cause), t) →
    MeetsFatal (.resolve (levels + 1) depth (.component c)) s (.failed cause) t
  | called {levels depth c s e t} : s.pending = none →
    MeetsFatal (.call levels depth c) s e t →
    MeetsFatal (.resolve (levels + 1) depth (.component c)) s e t
  | result {levels depth c s node s' e t} : s.pending = none →
    (invoke program config (resolveFrom program config levels (depth + 1)) depth c).exec s =
      (.ok node, s') →
    MeetsFatal (.resolve levels (depth + 1) node) s' e t →
    MeetsFatal (.resolve (levels + 1) depth (.component c)) s e t
  | collection {levels depth nodes s e t} : s.pending = none →
    MeetsFatal (.members levels depth nodes) s e t →
    MeetsFatal (.resolve (levels + 1) depth (.collection nodes)) s e t
  | child {levels depth element child s e t} : s.pending = none → element.children = some child →
    MeetsFatal (.resolve levels (depth + 1) child) s e t →
    MeetsFatal (.resolve (levels + 1) depth (.element element)) s e t
  | head {levels depth n rest s e t} : MeetsFatal (.resolve (levels + 1) depth n) s e t →
    MeetsFatal (.members levels depth (n :: rest)) s e t
  | tail {levels depth n rest s e t} :
    MeetsFatal (.members levels depth rest)
      ((Activity.resolve (levels + 1) depth n).leaves program config s) e t →
    MeetsFatal (.members levels depth (n :: rest)) s e t
  | provider {levels depth name s e t} :
    MeetsFatal (.run levels (depth + 1) (program.provide name depth config s.state))
      (s.enterCall depth) e t →
    MeetsFatal (.call levels depth (.provider name)) s e t
  | request {levels depth request resume s e t} :
    MeetsFatal (.resolve levels depth request.value.1) { s with state := request.value.2 } e t →
    MeetsFatal (.run levels depth (.resolve request resume)) s e t
  | resume {levels depth request resume s resolved s' e t} :
    (resolveFrom program config levels depth request.value.1).exec
      { s with state := request.value.2 } = (resolved, s') →
    MeetsFatal (.run levels depth (resume resolved s'.state)) s' e t →
    MeetsFatal (.run levels depth (.resolve request resume)) s e t

end

section

variable {program : Program F σ} {config : Config}

theorem leaves_cons (levels depth : Nat) (n : Node F) (rest : List (Node F)) (s : Scene σ) :
    (Activity.members levels depth (n :: rest)).leaves program config s =
      (Activity.members levels depth rest).leaves program config
        ((Activity.resolve (levels + 1) depth n).leaves program config s) := rfl

private theorem leaves_members_pending {s : Scene σ} {e : RenderError} (hs : s.pending = some e)
    (levels depth : Nat) (nodes : List (Node F)) :
    (Activity.members levels depth nodes).leaves program config s = s := by
  induction nodes with
  | nil => rfl
  | cons n rest ih =>
    have hn : (Activity.resolve (levels + 1) depth n).leaves program config s = s :=
      congrArg Prod.snd (exec_resolveFrom_pending hs (levels + 1) depth n)
    rw [leaves_cons, hn, ih]

variable (program config) in
private theorem exec_runScript_pending {s : Scene σ} {e : RenderError} (hs : s.pending = some e)
    (levels depth : Nat) (script : Script F σ) :
    ((runScript (resolveFrom program config levels depth) script).exec s).2.pending = some e ∧
      ((runScript (resolveFrom program config levels depth) script).exec s).2.callDepths =
        s.callDepths := by
  induction script generalizing s with
  | finish outcome => exact ⟨hs, rfl⟩
  | resolve request resume ih =>
    have hrequest : ({ s with state := request.value.2 } : Scene σ).pending = some e := hs
    rw [exec_runScript_resolve]
    simp only [exec_resolveFrom_pending hrequest]
    exact ih _ _ hrequest

theorem exec_invoke_pending {resolve : Node F → Calls σ (Node F)} {depth : Nat} {c : Component F}
    {s : Scene σ} {e : RenderError}
    (h : ((callComponent program config resolve depth c).exec (s.enterCall depth)).2.pending =
      some e) :
    (invoke program config resolve depth c).exec s = (.error e,
      { ((callComponent program config resolve depth c).exec (s.enterCall depth)).2 with
        pending := none }) := by
  simp only [exec_invoke, h]

private theorem exec_invoke_settled {resolve : Node F → Calls σ (Node F)} {depth : Nat}
    {c : Component F}
    {s : Scene σ}
    (h : ((callComponent program config resolve depth c).exec (s.enterCall depth)).2.pending =
      none) {e : RenderError} {t : Scene σ}
    (hinvoke : (invoke program config resolve depth c).exec s = (.error e, t)) :
    ∃ cause, e = .failed cause := by
  simp only [exec_invoke, h] at hinvoke
  generalize (callComponent program config resolve depth c).exec (s.enterCall depth) = p at hinvoke
  obtain ⟨failure | node, u⟩ := p
  · cases hinvoke
    exact ⟨_, rfl⟩
  · cases hinvoke

theorem MeetsFatal.surfaces {a : Activity F σ} {s t : Scene σ} {e : RenderError}
    (h : MeetsFatal program config a s e t) {cause : CallError} (he : e = .failed cause) :
    config.throwOnError = true := by
  induction h with
  | tooDeep => cases he
  | failed _ hthrow => exact hthrow
  | called _ _ ih => exact ih he
  | result _ _ _ ih => exact ih he
  | collection _ _ ih => exact ih he
  | child _ _ _ ih => exact ih he
  | head _ ih => exact ih he
  | tail _ ih => exact ih he
  | provider _ ih => exact ih he
  | request _ ih => exact ih he
  | resume _ _ ih => exact ih he

private theorem exec_resolveFailed_fatal {e : RenderError}
    (he : ∀ cause, e = .failed cause → config.throwOnError = true) {s : Scene σ}
    (hs : s.pending = none) :
    ((resolveFailed (F := F) config e).exec s).2 = { s with pending := some e } := by
  have hpostponed : s.postpone e = { s with pending := some e } := by
    rw [Scene.postpone, hs]
    rfl
  rw [exec_resolveFailed, ← hpostponed]
  cases e with
  | failed cause => exact if_pos (he cause rfl)
  | _ => rfl

theorem leaves_unlessPending {s : Scene σ} (hs : s.pending = none) (resolved : Calls σ (Node F)) :
    ((unlessPending resolved).exec s).2 = (resolved.exec s).2 := by
  rw [exec_unlessPending, if_neg (by rw [hs]; exact Bool.false_ne_true)]

private theorem leaves_component {levels depth : Nat} {c : Component F} {s : Scene σ}
    (hs : s.pending = none) :
    (Activity.resolve (levels + 1) depth (.component c)).leaves program config s =
      match (invoke program config (resolveFrom program config levels (depth + 1)) depth
        c).exec s with
      | (.ok node, s') => (Activity.resolve levels (depth + 1) node).leaves program config s'
      | (.error e, s') => ((resolveFailed (F := F) config e).exec s').2 := by
  rw [Activity.leaves, resolveFrom, resolveLevel, leaves_unlessPending hs, Calls.exec_bind]
  generalize (invoke program config (resolveFrom program config levels (depth + 1)) depth
    c).exec s = p
  obtain ⟨_ | node, s'⟩ := p <;> rfl

private theorem leaves_collection {levels depth : Nat} {nodes : List (Node F)} {s : Scene σ}
    (hs : s.pending = none) :
    (Activity.resolve (levels + 1) depth (.collection nodes)).leaves program config s =
      (Activity.members levels depth nodes).leaves program config s := by
  rw [Activity.leaves, resolveFrom, resolveLevel, leaves_unlessPending hs]
  rfl

private theorem leaves_child {levels depth : Nat} {e : Element F (Node F)} {child : Node F}
    (hchild : e.children = some child) {s : Scene σ} (hs : s.pending = none) :
    (Activity.resolve (levels + 1) depth (.element e)).leaves program config s =
      (Activity.resolve levels (depth + 1) child).leaves program config s := by
  rw [Activity.leaves, resolveFrom, resolveLevel, leaves_unlessPending hs, hchild]
  rfl

theorem MeetsFatal.leaves {a : Activity F σ} {s t : Scene σ} {e : RenderError}
    (h : MeetsFatal program config a s e t) :
    (a.leaves program config s).pending = some e ∧
      (a.leaves program config s).callDepths = t.callDepths := by
  induction h with
  | tooDeep hs =>
    rw [Activity.leaves, resolveFrom, leaves_unlessPending hs]
    simp only [Calls.exec_bind, Calls.exec_modify, Calls.exec_pure, Scene.postpone]
    exact ⟨by rw [Calls.exec_logged, hs]; rfl, rfl⟩
  | @failed levels depth c s cause t hs hthrow hinvoke =>
    have ht : t.pending = none := by
      have hnone := pending_invoke program config (resolveFrom program config levels (depth + 1))
        depth c s
      rw [hinvoke] at hnone
      exact hnone
    rw [leaves_component hs, hinvoke]
    simp only [exec_resolveFailed_fatal (F := F) (fun _ _ => hthrow) ht]
    exact ⟨trivial, trivial⟩
  | called hs hcall ih =>
    obtain ⟨hpending, hdepths⟩ := ih
    rw [leaves_component hs, exec_invoke_pending hpending]
    simp only [exec_resolveFailed_fatal (F := F) (fun _ he => hcall.surfaces he)]
    exact ⟨trivial, hdepths⟩
  | result hs hinvoke _ ih =>
    rw [leaves_component hs, hinvoke]
    exact ih
  | collection hs _ ih =>
    rw [leaves_collection hs]
    exact ih
  | child hs hchild _ ih =>
    rw [leaves_child hchild hs]
    exact ih
  | head _ ih =>
    rw [leaves_cons, leaves_members_pending ih.1]
    exact ih
  | tail _ ih => exact ih
  | provider _ ih => exact ih
  | @request levels depth request resume s e t _ ih =>
    rw [Activity.leaves, exec_runScript_resolve]
    have hrest := exec_runScript_pending program config ih.1 levels depth
      (resume ((resolveFrom program config levels depth request.value.1).exec
        { s with state := request.value.2 }).1
        ((resolveFrom program config levels depth request.value.1).exec
          { s with state := request.value.2 }).2.state)
    exact ⟨hrest.1, hrest.2.trans ih.2⟩
  | resume hresolved _ ih =>
    rw [Activity.leaves, exec_runScript_resolve]
    simp only [hresolved]
    exact ih

/-- An error that an activity leaves pending is one that it met. -/
def Activity.Accountable (program : Program F σ) (config : Config) (a : Activity F σ) : Prop :=
  ∀ s e, s.pending = none → (a.leaves program config s).pending = some e →
    ∃ t, MeetsFatal program config a s e t

private theorem accountable_of_leaves_eq {a : Activity F σ}
    (h : ∀ s : Scene σ, s.pending = none → a.leaves program config s = s) :
    a.Accountable program config := by
  intro s e hs hpending
  rw [h s hs, hs] at hpending
  cases hpending

private theorem accountable_script {levels depth : Nat}
    (h : ∀ node : Node F, (Activity.resolve levels depth node).Accountable program config)
    (script : Script F σ) : (Activity.run levels depth script).Accountable program config := by
  induction script with
  | finish outcome =>
    intro s e hs hpending
    rw [Activity.leaves, exec_runScript_finish, hs] at hpending
    cases hpending
  | resolve request resume ih =>
    intro s e hs hpending
    rw [Activity.leaves, exec_runScript_resolve] at hpending
    generalize hresolved : (resolveFrom program config levels depth request.value.1).exec
      { s with state := request.value.2 } = resolved at hpending
    obtain ⟨node, s'⟩ := resolved
    cases hs' : s'.pending with
    | none =>
      obtain ⟨t, ht⟩ := ih node s'.state s' e hs' hpending
      exact ⟨t, .resume hresolved ht⟩
    | some e' =>
      -- the first error stays whatever the script does after it
      have hfirst := (exec_runScript_pending program config hs' levels depth
        (resume node s'.state)).1
      have hsame : e' = e := by simpa [hfirst] using hpending
      subst hsame
      have hleaves : ((Activity.resolve levels depth request.value.1).leaves program config
          { s with state := request.value.2 }).pending = some e' := by
        rw [Activity.leaves, hresolved]
        exact hs'
      obtain ⟨t, ht⟩ := h request.value.1 { s with state := request.value.2 } e' hs hleaves
      exact ⟨t, .request ht⟩

theorem accountable_call {levels depth : Nat}
    (h : ∀ node : Node F, (Activity.resolve levels (depth + 1) node).Accountable program config)
    (c : Component F) : (Activity.call levels depth c).Accountable program config := by
  intro s e hs hpending
  cases c with
  | producer name =>
    rw [Activity.leaves, exec_callComponent_producer] at hpending
    rw [Scene.enterCall, hs] at hpending
    cases hpending
  | provider name =>
    obtain ⟨t, ht⟩ := accountable_script h (program.provide name depth config s.state)
      (s.enterCall depth) e hs hpending
    exact ⟨t, .provider ht⟩

private theorem accountable_component {levels depth : Nat}
    (h : ∀ node : Node F, (Activity.resolve levels (depth + 1) node).Accountable program config)
    (c : Component F) :
    (Activity.resolve (levels + 1) depth (.component c)).Accountable program config := by
  intro s e hs hpending
  rw [leaves_component hs] at hpending
  cases hcalled : ((Activity.call levels depth c).leaves program config s).pending with
  | some e' =>
    -- the error was met in the call
    obtain ⟨t, ht⟩ := accountable_call h c s e' hs hcalled
    have hmet := (MeetsFatal.called hs ht).leaves.1
    rw [leaves_component hs] at hmet
    obtain rfl : e' = e := Option.some.inj (hmet.symm.trans hpending)
    exact ⟨t, .called hs ht⟩
  | none =>
    have hnone := pending_invoke program config (resolveFrom program config levels (depth + 1))
      depth c s
    generalize hinvoke : (invoke program config (resolveFrom program config levels (depth + 1))
      depth c).exec s = p at hpending hnone
    obtain ⟨e' | node, s'⟩ := p
    · -- the component itself failed
      obtain ⟨cause, rfl⟩ := exec_invoke_settled hcalled hinvoke
      cases hthrow : config.throwOnError with
      | true =>
        simp only [exec_resolveFailed_fatal (F := F) (fun _ _ => hthrow) hnone] at hpending
        cases hpending
        exact ⟨s', .failed hs hthrow hinvoke⟩
      | false =>
        simp only [exec_resolveFailed, hthrow] at hpending
        rw [if_neg Bool.false_ne_true, hnone] at hpending
        cases hpending
    · obtain ⟨t, ht⟩ := h node s' e hnone hpending
      exact ⟨t, .result hs hinvoke ht⟩

private theorem accountable_members {levels depth : Nat} (nodes : List (Node F))
    (h : ∀ n ∈ nodes, (Activity.resolve (levels + 1) depth n).Accountable program config) :
    (Activity.members levels depth nodes).Accountable program config := by
  induction nodes with
  | nil => exact accountable_of_leaves_eq fun _ _ => rfl
  | cons n rest ih =>
    intro s e hs hpending
    rw [leaves_cons] at hpending
    cases hn : ((Activity.resolve (levels + 1) depth n).leaves program config s).pending with
    | none =>
      obtain ⟨t, ht⟩ := ih (fun m hm => h m (by simp [hm])) _ e hn hpending
      exact ⟨t, .tail ht⟩
    | some e' =>
      obtain ⟨t, ht⟩ := h n (by simp) s e' hs hn
      rw [leaves_members_pending hn, hn] at hpending
      cases hpending
      exact ⟨t, .head ht⟩

theorem accountable_resolve (levels depth : Nat) (node : Node F) :
    (Activity.resolve levels depth node).Accountable program config := by
  induction levels generalizing depth node with
  | zero =>
    intro s e hs hpending
    have hmet : MeetsFatal program config (.resolve 0 depth node) s (config.depthError depth) s :=
      .tooDeep hs
    obtain rfl : config.depthError depth = e := Option.some.inj (hmet.leaves.1.symm.trans hpending)
    exact ⟨s, hmet⟩
  | succ levels ih =>
    induction node using Node.inductOn with
    | empty => exact accountable_of_leaves_eq fun s hs => leaves_unlessPending hs _
    | text value => exact accountable_of_leaves_eq fun s hs => leaves_unlessPending hs _
    | component c => exact accountable_component (ih (depth + 1)) c
    | collection nodes ihnodes =>
      intro s e hs hpending
      rw [leaves_collection hs] at hpending
      obtain ⟨t, ht⟩ := accountable_members nodes ihnodes s e hs hpending
      exact ⟨t, .collection hs ht⟩
    | element element _ =>
      cases hchild : element.children with
      | none =>
        apply accountable_of_leaves_eq
        intro s hs
        rw [Activity.leaves, resolveFrom, resolveLevel, leaves_unlessPending hs, hchild]
        rfl
      | some child =>
        intro s e hs hpending
        rw [leaves_child hchild hs] at hpending
        obtain ⟨t, ht⟩ := ih (depth + 1) child s e hs hpending
        exact ⟨t, .child hs hchild ht⟩

end

end TreeRender
