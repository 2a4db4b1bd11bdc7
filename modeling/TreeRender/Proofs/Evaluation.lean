import TreeRender.Evaluate

/-!
# What evaluation reads

User functions are called on the scene of a render, but neither they nor the resolving of nodes look
at what the walk has counted: elements, hits and misses may be anything, and stay as they are. Nor
do they look at options other than the depth limit and the treatment of failures, unless a provider
reads them itself.
-/

namespace TreeRender

variable {F σ α β : Type}

/-- The scene with the counts of `k` in place of its own, failures apart. -/
def Scene.recount (k : Counters) (s : Scene σ) : Scene σ :=
  { s with counters := { k with errors := s.counters.errors } }

section

variable (program : Program F σ) (config : Config)

theorem exec_runScript_finish (resolve : Node F → Calls σ (Node F))
    (outcome : Logged (Except Failure (Node F) × σ)) (s : Scene σ) :
    (runScript resolve (.finish outcome)).exec s =
      (outcome.value.1, { s with state := outcome.value.2 }) := rfl

theorem exec_runScript_resolve (resolve : Node F → Calls σ (Node F))
    (request : Logged (Node F × σ)) (resume : Node F → σ → Script F σ) (s : Scene σ) :
    (runScript resolve (.resolve request resume)).exec s =
      let resolved := (resolve request.value.1).exec { s with state := request.value.2 }
      (runScript resolve (resume resolved.1 resolved.2.state)).exec resolved.2 := rfl

theorem exec_callComponent_producer (resolve : Node F → Calls σ (Node F)) (depth : Nat) (name : F)
    (s : Scene σ) : (callComponent program config resolve depth (.producer name)).exec s =
      ((program.produce name s.state).value.1,
        { s with state := (program.produce name s.state).value.2 }) := rfl

theorem exec_callComponent_provider (resolve : Node F → Calls σ (Node F)) (depth : Nat) (name : F)
    (s : Scene σ) : (callComponent program config resolve depth (.provider name)).exec s =
      (runScript resolve (program.provide name depth config s.state)).exec s := rfl

theorem exec_invoke (resolve : Node F → Calls σ (Node F)) (depth : Nat) (c : Component F)
    (s : Scene σ) : (invoke program config resolve depth c).exec s =
      let called := (callComponent program config resolve depth c).exec (s.enterCall depth)
      match called.2.pending, called.1 with
      | some e, _ => (.error e, { called.2 with pending := none })
      | none, .ok node => (.ok node, called.2)
      | none, .error failure => (.error (.failed failure.toError), called.2.countError) := by
  simp only [invoke, Calls.exec_bind, Calls.exec_modify, Calls.exec_get]
  rcases (callComponent program config resolve depth c).exec (s.enterCall depth) with ⟨outcome, t⟩
  cases hp : t.pending with
  | some e => simp
  | none => cases outcome <;> simp

theorem pending_invoke (resolve : Node F → Calls σ (Node F)) (depth : Nat) (c : Component F)
    (s : Scene σ) : ((invoke program config resolve depth c).exec s).2.pending = none := by
  rw [exec_invoke]
  generalize (callComponent program config resolve depth c).exec (s.enterCall depth) = p
  obtain ⟨outcome, t⟩ := p
  cases hpending : t.pending with
  | some e => simp only [hpending]
  | none => cases outcome <;> simp only [hpending, Scene.countError]

theorem exec_directiveText_computed (name : F) (s : Scene σ) :
    (directiveText program (.computed name)).exec s =
      let computed := (program.compute name s.state).value
      match computed.1 with
      | .ok text => (.ok text, { s with state := computed.2 })
      | .error payload =>
        (.error ⟨panicText payload⟩, { s with state := computed.2 }.countError) := by
  simp only [directiveText, Calls.exec_bind, Calls.exec_modify, Calls.exec_get, Calls.exec_logged]
  cases (program.compute name s.state).value.1 <;> rfl

theorem exec_unlessPending (resolved : Calls σ (Node F)) (s : Scene σ) :
    (unlessPending resolved).exec s =
      if s.pending.isSome then (.empty, s) else resolved.exec s := by
  change (if s.pending.isSome then return .empty else resolved : Calls σ (Node F)).exec s = _
  by_cases h : s.pending.isSome
  · rw [if_pos h, if_pos h]
    rfl
  · rw [if_neg h, if_neg h]

variable {program config} in
theorem exec_resolveFrom_pending {s : Scene σ} {e : RenderError} (hs : s.pending = some e)
    (levels depth : Nat) (node : Node F) :
    (resolveFrom program config levels depth node).exec s = (.empty, s) := by
  have skips (resolved : Calls σ (Node F)) : (unlessPending resolved).exec s = (.empty, s) := by
    rw [exec_unlessPending, if_pos (by rw [hs]; rfl)]
  cases levels with
  | zero => exact skips _
  | succ levels => cases node <;> exact skips _

theorem exec_resolveFailed (e : RenderError) (s : Scene σ) :
    (resolveFailed (F := F) config e).exec s = (.empty,
      match e with
      | .failed _ => if config.throwOnError then s.postpone e else s
      | _ => s.postpone e) := by
  cases e with
  | failed cause =>
    simp only [resolveFailed]
    cases config.throwOnError <;> rfl
  | _ => rfl

end

/-- Calls that neither look at the counts of elements, hits and misses nor change them. -/
def Calls.Blind (x : Calls σ α) : Prop :=
  ∀ k s, x.exec (s.recount k) = ((x.exec s).1, (x.exec s).2.recount k)

namespace Calls.Blind

theorem pure (a : α) : Calls.Blind (pure a : Calls σ α) := fun _ _ => rfl

theorem bind {x : Calls σ α} {f : α → Calls σ β} (hx : x.Blind) (hf : ∀ a, (f a).Blind) :
    (x >>= f).Blind := by
  intro k s
  rw [exec_bind, exec_bind, hx k s, hf]

theorem counts_eq {x : Calls σ α} (hx : x.Blind) (s : Scene σ) :
    (x.exec s).2.recount s.counters = (x.exec s).2 :=
  (congrArg Prod.snd (hx s.counters s)).symm

end Calls.Blind

section

variable (program : Program F σ) (config : Config) {resolve : Node F → Calls σ (Node F)}

private theorem blind_runScript (hr : ∀ n, (resolve n).Blind) (script : Script F σ) :
    (runScript resolve script).Blind := by
  induction script with
  | finish outcome => exact fun _ _ => rfl
  | resolve request resume ih =>
    intro k s
    have hresolved := hr request.value.1 k { s with state := request.value.2 }
    rw [exec_runScript_resolve, exec_runScript_resolve]
    change (resolve request.value.1).exec { s.recount k with state := request.value.2 } = _
      at hresolved
    simp only [hresolved]
    exact ih _ _ k _

private theorem blind_callComponent (hr : ∀ n, (resolve n).Blind) (depth : Nat) (c : Component F) :
    (callComponent program config resolve depth c).Blind := by
  intro k s
  cases c with
  | producer name => rfl
  | provider name => exact blind_runScript hr (program.provide name depth config s.state) k s

theorem blind_invoke (hr : ∀ n, (resolve n).Blind) (depth : Nat) (c : Component F) :
    (invoke program config resolve depth c).Blind := by
  intro k s
  have hcalled := blind_callComponent program config hr depth c k (s.enterCall depth)
  change (callComponent program config resolve depth c).exec ((s.recount k).enterCall depth) = _
    at hcalled
  rw [exec_invoke, exec_invoke, hcalled]
  rcases (callComponent program config resolve depth c).exec (s.enterCall depth) with ⟨outcome, t⟩
  cases hpending : t.pending with
  | some e => simp only [Scene.recount, hpending]
  | none => cases outcome <;> simp only [Scene.recount, hpending, Scene.countError]

theorem blind_directiveText (directive : Directive F) : (directiveText program directive).Blind := by
  intro k s
  cases directive with
  | literal text => rfl
  | computed name =>
    simp only [exec_directiveText_computed, Scene.recount]
    cases (program.compute name s.state).value.1 <;> rfl

private theorem blind_unlessPending {resolved : Calls σ (Node F)} (h : resolved.Blind) :
    (unlessPending resolved).Blind := by
  intro k s
  rw [exec_unlessPending, exec_unlessPending]
  change (if s.pending.isSome then _ else _) = _
  by_cases hp : s.pending.isSome
  · rw [if_pos hp, if_pos hp]
  · rw [if_neg hp, if_neg hp]
    exact h k s

private theorem blind_resolveFailed (e : RenderError) :
    (resolveFailed config e : Calls σ (Node F)).Blind := by
  intro k s
  simp only [exec_resolveFailed]
  cases e with
  | failed cause => cases config.throwOnError <;> rfl
  | _ => rfl

private theorem blind_resolveLevel {below : Node F → Calls σ (Node F)} (hb : ∀ n, (below n).Blind)
    (depth : Nat) (node : Node F) : (resolveLevel program config below depth node).Blind := by
  induction node using Node.inductOn with
  | empty => exact blind_unlessPending (.pure _)
  | text value => exact blind_unlessPending (.pure _)
  | component c =>
    refine blind_unlessPending (.bind (blind_invoke program config hb depth c) fun outcome => ?_)
    cases outcome with
    | ok node => exact hb node
    | error e => exact blind_resolveFailed config e
  | collection nodes ih =>
    have members : (resolveMembers program config below depth nodes).Blind := by
      induction nodes with
      | nil => exact .pure _
      | cons n rest ihrest =>
        refine .bind (ih n (by simp)) fun _ => .bind (ihrest fun m hm => ih m (by simp [hm])) ?_
        exact fun _ => .pure _
    exact blind_unlessPending (.bind members fun _ => .pure _)
  | element e ih =>
    apply blind_unlessPending
    cases e.children with
    | none => exact .pure _
    | some child => exact .bind (hb child) fun _ => .pure _

theorem blind_resolveFrom (levels depth : Nat) (node : Node F) :
    (resolveFrom program config levels depth node).Blind := by
  induction levels generalizing depth node with
  | zero =>
    apply blind_unlessPending
    exact .bind (fun _ _ => rfl) fun _ => .bind (fun _ _ => rfl) fun _ => .pure _
  | succ levels ih => exact blind_resolveLevel program config (ih (depth + 1)) depth node

end

/-- Functions of `program` are evaluated under `d` as they are under `c`: the depth limit and the
treatment of failures are the same, and providers make no difference between the two. -/
structure Config.EvaluatesLike (program : Program F σ) (c d : Config) : Prop where
  maxDepth : c.maxDepth = d.maxDepth
  throwOnError : c.throwOnError = d.throwOnError
  provide : ∀ name depth s, program.provide name depth c s = program.provide name depth d s

section

variable {program : Program F σ} {c d : Config} (h : c.EvaluatesLike program d)

include h

theorem invoke_congr (resolve : Node F → Calls σ (Node F)) (depth : Nat) (comp : Component F) :
    invoke program c resolve depth comp = invoke program d resolve depth comp := by
  cases comp with
  | producer name => rfl
  | provider name => simp only [invoke, callComponent, h.provide]

private theorem resolveLevel_congr (below : Node F → Calls σ (Node F)) (depth : Nat) (node : Node F)
    :
    resolveLevel program c below depth node = resolveLevel program d below depth node := by
  induction node using Node.inductOn with
  | empty => rfl
  | text value => rfl
  | component comp =>
    have failed : resolveFailed (F := F) (σ := σ) c = resolveFailed d := by
      funext e
      simp only [resolveFailed, h.throwOnError]
    simp only [resolveLevel, invoke_congr h, failed]
  | collection nodes ih =>
    have members : resolveMembers program c below depth nodes =
        resolveMembers program d below depth nodes := by
      induction nodes with
      | nil => rfl
      | cons n rest ihrest =>
        simp only [resolveMembers, ih n (by simp), ihrest fun m hm => ih m (by simp [hm])]
    simp only [resolveLevel, members]
  | element e ih => rfl

theorem resolveFrom_congr (levels depth : Nat) :
    resolveFrom program c levels depth = resolveFrom program d levels depth := by
  induction levels generalizing depth with
  | zero =>
    funext node
    simp only [resolveFrom, Config.depthError, h.maxDepth]
  | succ levels ih =>
    funext node
    simp only [resolveFrom, ih, resolveLevel_congr h]

end

end TreeRender
