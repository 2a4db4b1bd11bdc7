import Mathlib.Logic.Function.Iterate
import TreeRender.Proofs.Evaluation

/-!
# Evaluation ends

Functions may return trees that name the same functions again, so nothing about a tree bounds its
evaluation. Here evaluation is a plain recursion that only compares depths with the limit: one round
of it says what is done with a node, given how to go on with others. Finitely many rounds settle
what comes of a node, whatever would be done after them. The depth of a node and its size decide how
many rounds these are, along with what the functions return.
-/

namespace TreeRender

variable {F σ α γ R : Type}

/-- Holds after finitely many rounds, whatever was there before them. -/
def Eventually (round : R → R) (P : R → Prop) : Prop := ∃ n, ∀ r, P (round^[n] r)

namespace Eventually

variable {round : R → R} {P Q : R → Prop}

theorem always (h : ∀ r, P r) : Eventually round P := ⟨0, fun r => h r⟩

theorem mono (h : Eventually round P) (himp : ∀ r, P r → Q r) : Eventually round Q := by
  obtain ⟨n, hn⟩ := h
  exact ⟨n, fun r => himp _ (hn r)⟩

theorem and (hp : Eventually round P) (hq : Eventually round Q) :
    Eventually round fun r => P r ∧ Q r := by
  obtain ⟨m, hm⟩ := hp
  obtain ⟨n, hn⟩ := hq
  refine ⟨m + n, fun r => ⟨?_, ?_⟩⟩
  · rw [Function.iterate_add_apply]
    exact hm _
  · rw [Nat.add_comm, Function.iterate_add_apply]
    exact hn _

theorem again (h : Eventually round fun r => P (round r)) : Eventually round P := by
  obtain ⟨n, hn⟩ := h
  refine ⟨n + 1, fun r => ?_⟩
  rw [Function.iterate_succ_apply']
  exact hn r

theorem calls_bind {x : R → Calls σ α} {y : Calls σ α} {f : R → α → Calls σ γ}
    {g : α → Calls σ γ} {s : Scene σ} (hx : Eventually round fun r => (x r).exec s = y.exec s)
    (hf : ∀ a t, y.exec s = (a, t) → Eventually round fun r => (f r a).exec t = (g a).exec t) :
    Eventually round fun r => (x r >>= f r).exec s = (y >>= g).exec s := by
  apply (hx.and (hf (y.exec s).1 (y.exec s).2 rfl)).mono
  rintro r ⟨hxr, hfr⟩
  rw [Calls.exec_bind, Calls.exec_bind, hxr, hfr]

end Eventually

def resolveEach (f : Node F → Calls σ (Node F)) : List (Node F) → Calls σ (List (Node F))
  | [] => return []
  | n :: rest => return (← f n) :: (← resolveEach f rest)

/-- How to resolve a node at a depth, and how to evaluate a component. -/
structure Evaluator (F σ : Type) where
  resolve : Nat → Node F → Calls σ (Node F)
  evaluate : Nat → Component F → Calls σ (Except RenderError (Node F × Nat))

/-- What is done with a node that the depth limit allows. The members of a collection are resolved
at its own depth. -/
def Evaluator.resolveNode (config : Config) (E : Evaluator F σ) (depth : Nat) :
    Node F → Calls σ (Node F)
  | .empty => return .empty
  | .text value => return .text value
  | .component c => do
    match ← E.evaluate depth c with
    | .ok (node, last) => E.resolve (last + 1) node
    | .error e => resolveFailed config e
  | .collection nodes => return .collection (← resolveEach (E.resolve depth) nodes)
  | .element e => do
    match e.children with
    | none => return .element e
    | some child => return .element (e.withChild (← E.resolve (depth + 1) child))

/-- One round of evaluation. A chain of components advances the depth by itself. -/
def Evaluator.round (program : Program F σ) (config : Config) (E : Evaluator F σ) :
    Evaluator F σ where
  resolve depth node := unlessPending do
    match ← config.guardDepth depth with
    | .error e =>
      modify (·.postpone e)
      return .empty
    | .ok () => E.resolveNode config depth node
  evaluate depth c := do
    match ← invoke program config (E.resolve (depth + 1)) depth c with
    | .ok (.component next) =>
      match ← config.guardDepth (depth + 1) with
      | .error e => return .error e
      | .ok () => E.evaluate (depth + 1) next
    | .ok node => return .ok (node, depth)
    | .error e => return .error e

def evaluator (program : Program F σ) (config : Config) : Evaluator F σ where
  resolve depth := resolveFrom program config (config.levelsAt depth) depth
  evaluate := evaluate program config

section

variable {program : Program F σ} {config : Config}

@[simp] theorem evaluator_evaluate :
    (evaluator program config).evaluate = evaluate program config := rfl

theorem Config.value_guardDepth (config : Config) (depth : Nat) :
    (config.guardDepth depth).value =
      if config.maxDepth < depth then .error (config.depthError depth) else .ok () := by
  unfold Config.guardDepth
  split <;> rfl

theorem Config.levelsAt_succ {depth : Nat} (h : depth ≤ config.maxDepth) :
    config.levelsAt depth = config.levelsAt (depth + 1) + 1 := by
  unfold Config.levelsAt
  omega

theorem Config.levelsAt_eq_zero {depth : Nat} (h : config.maxDepth < depth) :
    config.levelsAt depth = 0 := by
  unfold Config.levelsAt
  omega

private theorem resolveMembers_eq (below : Node F → Calls σ (Node F)) (depth : Nat)
    (nodes : List (Node F)) : resolveMembers program config below depth nodes =
      resolveEach (resolveLevel program config below depth) nodes := by
  induction nodes with
  | nil => rfl
  | cons n rest ih => simp only [resolveMembers, resolveEach, ih]

theorem exec_evaluate (depth : Nat) (c : Component F) (s : Scene σ) :
    (evaluate program config depth c).exec s =
      match (invoke program config ((evaluator program config).resolve (depth + 1)) depth
        c).exec s with
      | (.ok (.component next), t) =>
        if config.maxDepth < depth + 1 then (.error (config.depthError (depth + 1)), t)
        else (evaluate program config (depth + 1) next).exec t
      | (.ok node, t) => (.ok (node, depth), t)
      | (.error e, t) => (.error e, t) := by
  by_cases hlast : config.maxDepth < depth + 1
  · simp only [evaluate, evaluator, Config.levelsAt_eq_zero hlast, evaluateFrom, Calls.exec_bind,
      if_pos hlast]
    generalize (invoke program config (resolveFrom program config 0 (depth + 1)) depth c).exec s = p
    obtain ⟨_ | node, t⟩ := p
    · rfl
    · cases node <;> rfl
  · have hlevels := Config.levelsAt_succ (Nat.not_lt.1 hlast)
    simp only [evaluate, evaluator, hlevels, evaluateFrom, Calls.exec_bind, if_neg hlast]
    generalize (invoke program config (resolveFrom program config
      (config.levelsAt (depth + 1 + 1) + 1) (depth + 1)) depth c).exec s = p
    obtain ⟨_ | node, t⟩ := p
    · rfl
    · cases node <;> rfl

private theorem exec_resolve_call {depth : Nat} (h : depth ≤ config.maxDepth) (c : Component F)
    {s : Scene σ} (hs : s.pending = none) :
    ((evaluator program config).resolve depth (.component c)).exec s =
      match (invoke program config ((evaluator program config).resolve (depth + 1)) depth
        c).exec s with
      | (.ok node, t) => ((evaluator program config).resolve (depth + 1) node).exec t
      | (.error e, t) => (resolveFailed config e).exec t := by
  simp only [evaluator, Config.levelsAt_succ h, resolveFrom, resolveLevel, exec_unlessPending, hs,
    Option.isSome_none, Bool.false_eq_true, if_false, Calls.exec_bind]
  generalize (invoke program config (resolveFrom program config (config.levelsAt (depth + 1))
    (depth + 1)) depth c).exec s = p
  obtain ⟨_ | node, t⟩ := p <;> rfl

private theorem exec_resolve_component {depth : Nat} (h : depth ≤ config.maxDepth) (c : Component F)
    {s : Scene σ} (hs : s.pending = none) :
    ((evaluator program config).resolve depth (.component c)).exec s =
      match (evaluate program config depth c).exec s with
      | (.ok (node, last), t) => ((evaluator program config).resolve (last + 1) node).exec t
      | (.error e, t) => (resolveFailed config e).exec t := by
  -- Resolving takes the calls of a chain one level after the other, evaluation takes them at once.
  induction hlevels : config.levelsAt depth generalizing depth c s with
  | zero =>
    unfold Config.levelsAt at hlevels
    omega
  | succ levels ih =>
    have hbelow : config.levelsAt (depth + 1) = levels := by
      have hlevels' := Config.levelsAt_succ h
      omega
    rw [exec_resolve_call h c hs, exec_evaluate]
    cases hcall : (invoke program config ((evaluator program config).resolve (depth + 1)) depth
      c).exec s with
    | mk result t =>
      have ht : t.pending = none := by
        have hnone := pending_invoke program config ((evaluator program config).resolve (depth + 1))
          depth c s
        rw [hcall] at hnone
        exact hnone
      cases result with
      | error e => rfl
      | ok node =>
        cases node with
        | component next =>
          by_cases hlast : config.maxDepth < depth + 1
          · simp only [if_pos hlast, evaluator, Config.levelsAt_eq_zero hlast, resolveFrom,
              exec_unlessPending, ht]
            rfl
          · simp only [if_neg hlast]
            exact ih (Nat.not_lt.1 hlast) next ht hbelow
        | _ => rfl

private theorem exec_round_evaluate (depth : Nat) (c : Component F) (s : Scene σ) :
    (((evaluator program config).round program config).evaluate depth c).exec s =
      ((evaluator program config).evaluate depth c).exec s := by
  rw [evaluator_evaluate, exec_evaluate]
  simp only [Evaluator.round, Calls.exec_bind]
  generalize (invoke program config ((evaluator program config).resolve (depth + 1)) depth
    c).exec s = p
  obtain ⟨_ | node, t⟩ := p
  · rfl
  · cases node with
    | component next =>
      by_cases hlast : config.maxDepth < depth + 1
      · simp only [Calls.exec_bind, Calls.exec_logged, Config.value_guardDepth, if_pos hlast]
        rfl
      · simp only [Calls.exec_bind, Calls.exec_logged, Config.value_guardDepth, if_neg hlast]
        rfl
    | _ => rfl

private theorem exec_resolve_pending (depth : Nat) (node : Node F) {s : Scene σ}
    (hs : s.pending.isSome) :
    ((evaluator program config).resolve depth node).exec s = (.empty, s) := by
  obtain ⟨e, he⟩ := Option.isSome_iff_exists.1 hs
  exact exec_resolveFrom_pending he _ depth node

private theorem Evaluator.exec_round (E : Evaluator F σ) (depth : Nat) (node : Node F) (s : Scene σ)
    :
    ((E.round program config).resolve depth node).exec s =
      if s.pending.isSome then (.empty, s)
      else if config.maxDepth < depth then (.empty, s.postpone (config.depthError depth))
      else (E.resolveNode config depth node).exec s := by
  rw [round, exec_unlessPending]
  split
  · rfl
  · simp only [Calls.exec_bind, Calls.exec_logged, Config.value_guardDepth]
    by_cases hdeep : config.maxDepth < depth
    · simp only [if_pos hdeep]
      rfl
    · simp only [if_neg hdeep]

private theorem exec_round_resolve (depth : Nat) (node : Node F) (s : Scene σ) :
    (((evaluator program config).round program config).resolve depth node).exec s =
      ((evaluator program config).resolve depth node).exec s := by
  rw [Evaluator.exec_round]
  by_cases hs : s.pending.isSome
  · rw [exec_resolve_pending depth node hs, if_pos hs]
  rw [if_neg hs]
  by_cases hdeep : config.maxDepth < depth
  · simp only [if_pos hdeep, evaluator, Config.levelsAt_eq_zero hdeep, resolveFrom,
      exec_unlessPending, if_neg hs]
    rfl
  rw [if_neg hdeep]
  have hlevel (n : Node F) : (evaluator program config).resolve depth n =
      resolveLevel program config ((evaluator program config).resolve (depth + 1)) depth n := by
    simp only [evaluator, Config.levelsAt_succ (Nat.not_lt.1 hdeep), resolveFrom]
  cases node with
  | empty =>
    rw [hlevel, resolveLevel, exec_unlessPending, if_neg hs]
    rfl
  | text value =>
    rw [hlevel, resolveLevel, exec_unlessPending, if_neg hs]
    rfl
  | component c =>
    have hsettled : s.pending = none := Option.not_isSome_iff_eq_none.1 hs
    rw [exec_resolve_component (Nat.not_lt.1 hdeep) c hsettled, Evaluator.resolveNode,
      Calls.exec_bind, evaluator_evaluate]
    generalize (evaluate program config depth c).exec s = p
    obtain ⟨_ | ⟨node, last⟩, t⟩ := p <;> rfl
  | collection nodes =>
    have hmembers : resolveEach ((evaluator program config).resolve depth) nodes =
        resolveMembers program config ((evaluator program config).resolve (depth + 1)) depth nodes := by
      rw [resolveMembers_eq]
      exact congrArg (resolveEach · nodes) (funext hlevel)
    rw [hlevel, resolveLevel, exec_unlessPending, if_neg hs, ← hmembers]
    rfl
  | element e =>
    rw [hlevel, resolveLevel, exec_unlessPending, if_neg hs]
    rfl

theorem le_of_evaluate {depth last : Nat} {c : Component F} {s t : Scene σ} {node : Node F}
    (h : (evaluate program config depth c).exec s = (.ok (node, last), t)) : depth ≤ last := by
  rw [exec_evaluate] at h
  generalize (invoke program config ((evaluator program config).resolve (depth + 1)) depth
    c).exec s = p at h
  obtain ⟨_ | result, u⟩ := p
  · cases h
  · cases result with
    | component next =>
      by_cases hlast : config.maxDepth < depth + 1
      · simp only [if_pos hlast] at h
        cases h
      · simp only [if_neg hlast] at h
        have hnext := le_of_evaluate h
        omega
    | _ =>
      cases h
      exact Nat.le_refl _
termination_by config.maxDepth - depth

private theorem eventually_runScript {round : R → R} {f : R → Node F → Calls σ (Node F)}
    {g : Node F → Calls σ (Node F)}
    (h : ∀ n s, Eventually round fun r => (f r n).exec s = (g n).exec s) (script : Script F σ)
    (s : Scene σ) :
    Eventually round fun r => (runScript (f r) script).exec s = (runScript g script).exec s := by
  induction script generalizing s with
  | finish outcome => exact .always fun _ => rfl
  | resolve request resume ih =>
    have resolved := h request.value.1 { s with state := request.value.2 }
    generalize hn : (g request.value.1).exec { s with state := request.value.2 } = p at resolved
    apply (resolved.and (ih p.1 p.2.state p.2)).mono
    rintro r ⟨hresolved, hresumed⟩
    rw [exec_runScript_resolve, exec_runScript_resolve, hresolved, hn]
    exact hresumed

private theorem eventually_invoke {round : R → R} {f : R → Node F → Calls σ (Node F)}
    {g : Node F → Calls σ (Node F)}
    (h : ∀ n s, Eventually round fun r => (f r n).exec s = (g n).exec s) (depth : Nat)
    (c : Component F) (s : Scene σ) :
    Eventually round fun r => (invoke program config (f r) depth c).exec s =
      (invoke program config g depth c).exec s := by
  have called : Eventually round fun r =>
      (callComponent program config (f r) depth c).exec (s.enterCall depth) =
        (callComponent program config g depth c).exec (s.enterCall depth) := by
    cases c with
    | producer name => exact .always fun _ => rfl
    | provider name => exact eventually_runScript h _ _
  apply called.mono
  intro r hcalled
  rw [exec_invoke, exec_invoke, hcalled]

private theorem eventually_resolveEach {round : R → R} {f : R → Node F → Calls σ (Node F)}
    {g : Node F → Calls σ (Node F)} (nodes : List (Node F))
    (h : ∀ n ∈ nodes, ∀ s, Eventually round fun r => (f r n).exec s = (g n).exec s)
    (s : Scene σ) :
    Eventually round fun r => (resolveEach (f r) nodes).exec s = (resolveEach g nodes).exec s := by
  induction nodes generalizing s with
  | nil => exact .always fun _ => rfl
  | cons n rest ih =>
    apply Eventually.calls_bind (h n (by simp) s)
    intro _ t _
    apply Eventually.calls_bind (ih (fun m hm => h m (by simp [hm])) t)
    exact fun _ _ _ => .always fun _ => rfl

/-- Finitely many rounds settle what resolving comes to at one depth. -/
def ResolveSettles (program : Program F σ) (config : Config) (depth : Nat) : Prop :=
  ∀ node s, Eventually (Evaluator.round program config) fun E =>
    (E.resolve depth node).exec s = ((evaluator program config).resolve depth node).exec s

/-- Finitely many rounds settle what evaluating comes to at one depth. -/
def EvaluateSettles (program : Program F σ) (config : Config) (depth : Nat) : Prop :=
  ∀ c s, Eventually (Evaluator.round program config) fun E =>
    (E.evaluate depth c).exec s = ((evaluator program config).evaluate depth c).exec s

private theorem evaluate_settles {depth : Nat}
    (hresolve : ResolveSettles program config (depth + 1))
    (hnext : ¬config.maxDepth < depth + 1 → EvaluateSettles program config (depth + 1)) :
    EvaluateSettles program config depth := by
  intro c s
  apply Eventually.again
  simp only [← exec_round_evaluate]
  apply Eventually.calls_bind (eventually_invoke hresolve depth c s)
  rintro (_ | node) t _
  · exact .always fun _ => rfl
  · cases node with
    | component next =>
      simp only [Calls.exec_bind, Calls.exec_logged, Config.value_guardDepth]
      by_cases hlast : config.maxDepth < depth + 1
      · simp only [if_pos hlast]
        exact .always fun _ => trivial
      · simp only [if_neg hlast]
        exact hnext hlast next t
    | _ => exact .always fun _ => rfl

private theorem settles_of_resolveNode {depth : Nat} {node : Node F}
    (h : ¬config.maxDepth < depth → ∀ s, Eventually (Evaluator.round program config) fun E =>
      (E.resolveNode config depth node).exec s =
        ((evaluator program config).resolveNode config depth node).exec s) (s : Scene σ) :
    Eventually (Evaluator.round program config) fun E =>
      (E.resolve depth node).exec s = ((evaluator program config).resolve depth node).exec s := by
  apply Eventually.again
  simp only [← exec_round_resolve depth node s, Evaluator.exec_round]
  by_cases hs : s.pending.isSome
  · simp only [if_pos hs]
    exact .always fun _ => trivial
  by_cases hdeep : config.maxDepth < depth
  · simp only [if_neg hs, if_pos hdeep]
    exact .always fun _ => trivial
  simp only [if_neg hs, if_neg hdeep]
  exact h hdeep s

private theorem resolve_settles {depth : Nat}
    (hevaluate : ¬config.maxDepth < depth → EvaluateSettles program config depth)
    (hdeeper : ¬config.maxDepth < depth →
      ∀ deeper, depth < deeper → ResolveSettles program config deeper) :
    ResolveSettles program config depth := by
  intro node
  induction node using Node.inductOn with
  | empty => exact settles_of_resolveNode fun _ s => .always fun _ => rfl
  | text value => exact settles_of_resolveNode fun _ s => .always fun _ => rfl
  | component c =>
    apply settles_of_resolveNode
    intro hdepth s
    apply Eventually.calls_bind (hevaluate hdepth c s)
    rintro (_ | ⟨node, last⟩) t hevaluated
    · exact .always fun _ => rfl
    · exact hdeeper hdepth (last + 1) (Nat.lt_succ_of_le (le_of_evaluate hevaluated)) node t
  | collection nodes ih =>
    apply settles_of_resolveNode
    intro _ s
    apply Eventually.calls_bind (eventually_resolveEach nodes ih s)
    exact fun _ _ _ => .always fun _ => rfl
  | element e _ =>
    apply settles_of_resolveNode
    intro hdepth s
    simp only [Evaluator.resolveNode]
    cases e.children with
    | none => exact .always fun _ => rfl
    | some child =>
      apply Eventually.calls_bind (hdeeper hdepth (depth + 1) (Nat.lt_succ_self _) child s)
      exact fun _ _ _ => .always fun _ => rfl

private theorem resolve_settles_tooDeep {depth : Nat} (h : config.maxDepth < depth) :
    ResolveSettles program config depth :=
  resolve_settles (absurd h) (absurd h)

/-- Finitely many rounds settle what comes of any node and of any component at any depth, whatever
the functions do. -/
theorem evaluation_settles (depth : Nat) :
    ResolveSettles program config depth ∧ EvaluateSettles program config depth := by
  by_cases hdeep : config.maxDepth < depth
  · have hbelow : config.maxDepth < depth + 1 := Nat.lt_succ_of_lt hdeep
    exact ⟨resolve_settles_tooDeep hdeep,
      evaluate_settles (resolve_settles_tooDeep hbelow) (absurd hbelow)⟩
  · have deeper (d : Nat) (hd : depth < d) :
        ResolveSettles program config d ∧ EvaluateSettles program config d :=
      evaluation_settles d
    have next := deeper (depth + 1) (Nat.lt_succ_self depth)
    have hevaluate : EvaluateSettles program config depth :=
      evaluate_settles next.1 fun _ => next.2
    exact ⟨resolve_settles (fun _ => hevaluate) fun _ d hd => (deeper d hd).1, hevaluate⟩
termination_by config.maxDepth + 1 - depth

end

end TreeRender
