import TreeRender.Proofs.Failures.Calls
import TreeRender.Proofs.Walk.Closed

/-!
# What walks leave behind

A walk that begins with a calm scene ends with a calm one, or with an error that may escape from it.
This holds for every backend and every cache, since neither has a part in what the functions do.
-/

namespace TreeRender

variable {F σ β U α γ : Type}

def Scene.Ended (config : Config) : Except RenderError α → Scene σ → Prop
  | .ok _, s => s.Calm config 0
  | .error e, s => e.Escapes config s

private theorem Scene.Calm.counted {config : Config} {failures : Nat} {s t : Scene σ}
    (h : s.Calm config failures) (hpending : t.pending = s.pending)
    (hdepths : t.callDepths = s.callDepths) (herrors : t.counters.errors = s.counters.errors) :
    t.Calm config failures :=
  ⟨hpending.trans h.settled, hdepths ▸ h.depths, herrors ▸ h.errors⟩

/-- A part of a walk that begins with a calm scene ends as a walk may end. -/
def Walk.Settles (config : Config) (x : Walk σ β α) : Prop :=
  ∀ s, s.toScene.Calm config 0 → Scene.Ended config (x.exec s).1 (x.exec s).2.toScene

theorem Walk.composable_settles (config : Config) (backend : Backend F β U) :
    Walk.Composable backend (fun _ => True) fun x : Walk σ β _ => x.Settles config where
  toHereditary := Node.hereditary_true
  pure _ _ hs := hs
  bind {_ _ x f} hx hf := by
    intro s hs
    have ended := hx s hs
    rw [exec_bind]
    generalize x.exec s = p at ended ⊢
    obtain ⟨e | a, t⟩ := p
    · exact ended
    · exact hf a t ended
  logged _ _ hs := hs
  countElement _ hs := hs.counted rfl rfl rfl
  countHit _ hs := hs.counted rfl rfl rfl
  countMiss _ hs := hs.counted rfl rfl rfl
  operation _ _ hs := hs
  lookUp _ _ _ hs := hs
  store _ _ _ _ hs := hs

section

variable {program : Program F σ} {config : Config} {backend : Backend F β U}

theorem ended_recover (cause : CallError) {s : WalkState σ β} (hs : s.toScene.Calm config 1) :
    Scene.Ended config ((recover config backend cause : Walk σ β U).exec s).1
      ((recover config backend cause : Walk σ β U).exec s).2.toScene := by
  unfold recover
  cases hthrow : config.throwOnError with
  | true => exact ⟨hthrow, hs⟩
  | false => exact ⟨hs.settled, hs.depths, fun h => by rw [hthrow] at h; cases h⟩

theorem settles_directive (directive : Directive F) :
    Walk.Settles config (walkDirective program config backend (some directive)) := by
  intro s hs
  have called : Scene.Computed config ((directiveText program directive).exec s.toScene) :=
    called_directiveText directive hs
  simp only [walkDirective]
  rw [Walk.exec_bind, Walk.exec_onScene]
  generalize (directiveText program directive).exec s.toScene = p at called ⊢
  obtain ⟨cause | text, t⟩ := p
  · have ended : Scene.Ended config ((recover config backend cause).exec { s with toScene := t }).1
        ((recover config backend cause).exec { s with toScene := t }).2.toScene :=
      ended_recover cause called
    simp only [Walk.exec_bind_pure]
    generalize (recover config backend cause).exec { s with toScene := t } = q at ended ⊢
    obtain ⟨_ | _, _⟩ := q <;> exact ended
  · exact called

private theorem settles_component {levels depth : Nat} {c : Component F}
    {below : Node F → Walk σ β U}
    (hdepth : depth + levels = config.maxDepth) (hpos : 1 ≤ depth)
    (hbelow : ∀ n, Walk.Settles config (below n)) : Walk.Settles config (do
      match ← Walk.onScene
        (invoke program config (resolveFrom program config levels (depth + 1)) depth c) with
      | .ok node => below node
      | .error (.failed cause) => recover config backend cause
      | .error e => throw e) := by
  intro s hs
  have resolves (n : Node F) :
      (resolveFrom program config levels (depth + 1) n).KeepsOrder config :=
    keepsOrder_resolveFrom (by omega) (by omega) n
  have called : Scene.Called config ((invoke program config
      (resolveFrom program config levels (depth + 1)) depth c).exec s.toScene) :=
    called_invoke resolves hpos (by omega) c hs
  rw [Walk.exec_bind, Walk.exec_onScene]
  generalize (invoke program config (resolveFrom program config levels (depth + 1)) depth
    c).exec s.toScene = p at called ⊢
  obtain ⟨e | node, t⟩ := p
  · cases e with
    | failed cause => exact ended_recover cause called
    | depthExceeded depth maxDepth => exact called
    | config cause => exact called
  · exact hbelow node { s with toScene := t } called

variable (program config backend) in
theorem Walk.closed_settles :
    Walk.Closed program config backend (fun _ => True) fun x : Walk σ β _ => x.Settles config where
  toComposable := Walk.composable_settles config backend
  directive := settles_directive
  component hdepth hpos _ hbelow := settles_component hdepth hpos fun n => hbelow n trivial
  tooDeep _ hs := ⟨rfl, rfl, hs⟩

end

end TreeRender
