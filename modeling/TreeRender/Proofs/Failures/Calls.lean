import TreeRender.Proofs.Evaluation

/-!
# What calls leave behind

Until something fatal comes up a scene is calm: no error is pending, every call was made at a level
that the depth limit allows, and no failure was counted if failures are to surface. A call, a
computed text or the resolving of a node either keeps it so or leaves one error, in flight or
pending, along with the count that belongs to this error. A pending error goes from a provider to
the providers around it without being counted again.
-/

namespace TreeRender

variable {F σ α : Type}

/-- No error is pending, every call of a component was at a level that the depth limit allows, and
`failures` were counted if failures are to surface. -/
structure Scene.Calm (config : Config) (failures : Nat) (s : Scene σ) : Prop where
  settled : s.pending = none
  depths : ∀ depth ∈ s.callDepths, 1 ≤ depth ∧ depth ≤ config.maxDepth
  errors : config.throwOnError = true → s.counters.errors = failures

/-- An error that may end a render which is left at `s`: the depth limit was passed by one level
and no failure counted, or failures are to surface and this is the only one. -/
def RenderError.Escapes (config : Config) (s : Scene σ) : RenderError → Prop
  | .depthExceeded depth maxDepth =>
    depth = config.maxDepth + 1 ∧ maxDepth = config.maxDepth ∧ s.Calm config 0
  | .failed _ => config.throwOnError = true ∧ s.Calm config 1
  | .config _ => False

namespace Scene

variable {config : Config} {s : Scene σ}

/-- The scene after a call of a component: calm, or left by a failure that is counted, to be dealt
with as the configuration says, or by an error that ends the render. -/
def Called (config : Config) : Except RenderError α × Scene σ → Prop
  | (.ok _, s) => s.Calm config 0
  | (.error (.failed _), s) => s.Calm config 1
  | (.error e, s) => e.Escapes config s

theorem Called.escapes {e : RenderError}
    (h : Called config ((.error e, s) : Except RenderError α × Scene σ))
    (he : ∀ cause, e ≠ .failed cause) : e.Escapes config s := by
  cases e with
  | depthExceeded depth maxDepth => exact h
  | failed cause => exact absurd rfl (he cause)
  | config cause => exact h

/-- The scene after a text was computed: calm, or left by a failure that is counted. -/
def Computed (config : Config) : Except CallError α × Scene σ → Prop
  | (.ok _, s) => s.Calm config 0
  | (.error _, s) => s.Calm config 1

/-- A calm scene, or one that was calm but for an error that is pending. -/
def Orderly (config : Config) (s : Scene σ) : Prop :=
  match s.pending with
  | none => s.Calm config 0
  | some e => e.Escapes config { s with pending := none }

theorem calm_start (state : σ) : ({ state } : Scene σ).Calm config 0 :=
  ⟨rfl, fun _ h => (nomatch h), fun _ => rfl⟩

theorem Calm.orderly (h : s.Calm config 0) : s.Orderly config := by
  rw [Orderly, h.settled]
  exact h

private theorem Orderly.calm (h : s.Orderly config) (hsettled : s.pending = none) : s.Calm config 0
    := by
  rw [Orderly, hsettled] at h
  exact h

private theorem Calm.withState {failures : Nat} (h : s.Calm config failures) (state : σ) :
    { s with state }.Calm config failures :=
  ⟨h.settled, h.depths, h.errors⟩

private theorem Calm.countError (h : s.Calm config 0) : s.countError.Calm config 1 := by
  refine ⟨h.settled, h.depths, fun hthrow => ?_⟩
  have hcounted : s.countError.counters.errors = s.counters.errors + 1 := rfl
  rw [hcounted, h.errors hthrow]

private theorem Calm.enterCall {failures depth : Nat} (h : s.Calm config failures)
    (hpos : 1 ≤ depth)
    (hdepth : depth ≤ config.maxDepth) : (s.enterCall depth).Calm config failures := by
  refine ⟨h.settled, fun d hd => ?_, h.errors⟩
  rcases List.mem_cons.1 hd with rfl | hd
  · exact ⟨hpos, hdepth⟩
  · exact h.depths d hd

private theorem Orderly.withState (h : s.Orderly config) (state : σ) :
    { s with state }.Orderly config := by
  obtain ⟨before, counters, pending, callDepths⟩ := s
  cases pending with
  | none => exact Calm.withState h state
  | some e =>
    cases e with
    | depthExceeded depth maxDepth => exact ⟨h.1, h.2.1, Calm.withState h.2.2 state⟩
    | failed cause => exact ⟨h.1, Calm.withState h.2 state⟩
    | config cause => exact h

private theorem orderly_postpone {e : RenderError} (hsettled : s.pending = none)
    (h : e.Escapes config s) :
    (s.postpone e).Orderly config := by
  have hpending : (s.postpone e).pending = some e := by rw [postpone, hsettled]; rfl
  have hscene : { s.postpone e with pending := none } = s := by rw [postpone, ← hsettled]
  rw [Orderly, hpending, hscene]
  exact h

end Scene

def Calls.KeepsOrder (config : Config) (x : Calls σ α) : Prop :=
  ∀ s, s.Orderly config → (x.exec s).2.Orderly config

namespace Calls.KeepsOrder

variable {config : Config}

theorem pure (a : α) : Calls.KeepsOrder config (Pure.pure a : Calls σ α) := fun _ hs => hs

theorem bind {γ : Type} {x : Calls σ α} {f : α → Calls σ γ} (hx : x.KeepsOrder config)
    (hf : ∀ a, (f a).KeepsOrder config) : (x >>= f).KeepsOrder config := by
  intro s hs
  rw [exec_bind]
  exact hf _ _ (hx s hs)

private theorem unlessPending {resolved : Calls σ (Node F)}
    (h : ∀ s, s.Calm config 0 → (resolved.exec s).2.Orderly config) :
    (TreeRender.unlessPending resolved).KeepsOrder config := by
  intro s hs
  rw [exec_unlessPending]
  cases hpending : s.pending with
  | some e => exact hs
  | none => exact h s (hs.calm hpending)

end Calls.KeepsOrder

section

variable {program : Program F σ} {config : Config} {resolve : Node F → Calls σ (Node F)}

private theorem keepsOrder_runScript (hr : ∀ n, (resolve n).KeepsOrder config) (script : Script F σ)
    :
    (runScript resolve script).KeepsOrder config := by
  intro s hs
  induction script generalizing s with
  | finish outcome => exact hs.withState outcome.value.2
  | resolve request resume ih =>
    rw [exec_runScript_resolve]
    exact ih _ _ _ (hr _ _ (hs.withState request.value.2))

private theorem keepsOrder_callComponent (hr : ∀ n, (resolve n).KeepsOrder config) (depth : Nat)
    (c : Component F) : (callComponent program config resolve depth c).KeepsOrder config := by
  intro s hs
  cases c with
  | producer name => exact hs.withState _
  | provider name =>
    rw [exec_callComponent_provider]
    exact keepsOrder_runScript hr _ s hs

/-- A call of a component counts a failure of its own, and passes on an error that came up below
without counting it again, whatever the component itself returns or panics with. -/
theorem called_invoke (hr : ∀ n, (resolve n).KeepsOrder config) {depth : Nat} (hpos : 1 ≤ depth)
    (hdepth : depth ≤ config.maxDepth) (c : Component F) {s : Scene σ} (hs : s.Calm config 0) :
    Scene.Called config ((invoke program config resolve depth c).exec s) := by
  have called : ((callComponent program config resolve depth c).exec
      (s.enterCall depth)).2.Orderly config :=
    keepsOrder_callComponent hr depth c _ (hs.enterCall hpos hdepth).orderly
  rw [exec_invoke]
  generalize (callComponent program config resolve depth c).exec (s.enterCall depth) = p at called ⊢
  obtain ⟨outcome, t⟩ := p
  cases hpending : t.pending with
  | none =>
    have hcalm := Scene.Orderly.calm called hpending
    simp only [hpending]
    cases outcome with
    | ok node => exact hcalm
    | error failure => exact hcalm.countError
  | some e =>
    rw [Scene.Orderly, hpending] at called
    simp only [hpending]
    cases e with
    | depthExceeded depth maxDepth => exact called
    | failed cause => exact called.2
    | config cause => exact called

private theorem orderly_resolveFailed {α : Type} {e : RenderError} {s : Scene σ}
    (h : Scene.Called config ((.error e, s) : Except RenderError α × Scene σ)) :
    ((resolveFailed (F := F) config e).exec s).2.Orderly config := by
  rw [exec_resolveFailed]
  cases e with
  | depthExceeded depth maxDepth => exact Scene.orderly_postpone h.2.2.settled h
  | failed cause =>
    have hcalm : s.Calm config 1 := h
    cases hthrow : config.throwOnError with
    | true => exact Scene.orderly_postpone hcalm.settled ⟨hthrow, hcalm⟩
    | false =>
      have hquiet : s.Calm config 0 :=
        ⟨hcalm.settled, hcalm.depths, fun h => by rw [hthrow] at h; cases h⟩
      exact hquiet.orderly
  | config cause => exact h.elim

private theorem keepsOrder_resolveLevel {below : Node F → Calls σ (Node F)}
    (hb : ∀ n, (below n).KeepsOrder config) {depth : Nat} (hpos : 1 ≤ depth)
    (hdepth : depth ≤ config.maxDepth) (node : Node F) :
    (resolveLevel program config below depth node).KeepsOrder config := by
  induction node using Node.inductOn with
  | empty => exact .unlessPending fun s hs => hs.orderly
  | text value => exact .unlessPending fun s hs => hs.orderly
  | component c =>
    apply Calls.KeepsOrder.unlessPending
    intro s hs
    have called : Scene.Called config ((invoke program config below depth c).exec s) :=
      called_invoke hb hpos hdepth c hs
    rw [Calls.exec_bind]
    generalize (invoke program config below depth c).exec s = p at called ⊢
    obtain ⟨_ | node, t⟩ := p
    · exact orderly_resolveFailed called
    · have hcalm : t.Calm config 0 := called
      exact hb node t hcalm.orderly
  | collection nodes ih =>
    have members : (resolveMembers program config below depth nodes).KeepsOrder config := by
      induction nodes with
      | nil => exact .pure _
      | cons n rest ihrest =>
        refine .bind (ih n (by simp)) fun _ => .bind (ihrest fun m hm => ih m (by simp [hm])) ?_
        exact fun _ => .pure _
    exact .unlessPending fun s hs => members s hs.orderly
  | element e _ =>
    apply Calls.KeepsOrder.unlessPending
    intro s hs
    cases e.children with
    | none => exact hs.orderly
    | some child => exact hb child s hs.orderly

/-- Resolving a node, at a level that the depth limit allows or at the first one past it, leaves an
orderly scene orderly. -/
theorem keepsOrder_resolveFrom {levels depth : Nat} (hdepth : depth + levels = config.maxDepth + 1)
    (hpos : 1 ≤ depth) (node : Node F) :
    (resolveFrom program config levels depth node).KeepsOrder config := by
  induction levels generalizing depth node with
  | zero =>
    apply Calls.KeepsOrder.unlessPending
    intro s hs
    exact Scene.orderly_postpone hs.settled ⟨hdepth, rfl, hs⟩
  | succ levels ih =>
    exact keepsOrder_resolveLevel (ih (by omega) (by omega)) hpos (by omega) node

theorem called_directiveText (directive : Directive F) {s : Scene σ} (hs : s.Calm config 0) :
    Scene.Computed config ((directiveText program directive).exec s) := by
  cases directive with
  | literal text => exact hs
  | computed name =>
    rw [exec_directiveText_computed]
    generalize (program.compute name s.state).value = computed
    obtain ⟨_ | text, state⟩ := computed
    · exact (hs.withState state).countError
    · exact hs.withState state

end

end TreeRender
