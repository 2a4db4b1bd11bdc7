import TreeRender.Proofs.Evaluation

/-!
# Failures are counted

Where failures are contained, none is ever left pending, the count of failures only grows, and a
component that fails has been counted. So a count that stays says that nothing failed.
-/

namespace TreeRender

variable {F σ α γ : Type}

/-- No failure is pending. The error of a depth may well be. -/
def Scene.NoFailure (s : Scene σ) : Prop := ∀ cause, s.pending ≠ some (.failed cause)

theorem Scene.noFailure_of_settled {s : Scene σ} (h : s.pending = none) : s.NoFailure := by
  intro cause
  rw [h]
  exact Option.some_ne_none _ ∘ Eq.symm

private theorem Scene.NoFailure.postpone {s : Scene σ} (h : s.NoFailure) {e : RenderError}
    (he : ∀ cause, e ≠ .failed cause) : (s.postpone e).NoFailure := by
  intro cause hpending
  rcases Option.or_eq_some_iff.1 hpending with hbefore | ⟨-, hnew⟩
  · exact h cause hbefore
  · exact he cause (Option.some.inj hnew)

/-- Calls that leave no failure pending and do not forget any that was counted. -/
def Calls.Counts (x : Calls σ α) : Prop :=
  ∀ s, s.NoFailure →
    (x.exec s).2.NoFailure ∧ s.counters.errors ≤ (x.exec s).2.counters.errors

namespace Calls.Counts

theorem pure (a : α) : Calls.Counts (Pure.pure a : Calls σ α) := fun _ hs => ⟨hs, Nat.le_refl _⟩

theorem bind {x : Calls σ α} {f : α → Calls σ γ} (hx : x.Counts) (hf : ∀ a, (f a).Counts) :
    (x >>= f).Counts := by
  intro s hs
  obtain ⟨hquiet, hle⟩ := hx s hs
  obtain ⟨hquiet', hle'⟩ := hf (x.exec s).1 _ hquiet
  rw [exec_bind]
  exact ⟨hquiet', Nat.le_trans hle hle'⟩

private theorem unlessPending {resolved : Calls σ (Node F)} (h : resolved.Counts) :
    (TreeRender.unlessPending resolved).Counts := by
  intro s hs
  rw [exec_unlessPending]
  split
  · exact ⟨hs, Nat.le_refl _⟩
  · exact h s hs

end Calls.Counts

section

variable {program : Program F σ} {config : Config} {resolve : Node F → Calls σ (Node F)}

private theorem counts_runScript (hr : ∀ n, (resolve n).Counts) (script : Script F σ) :
    (runScript resolve script).Counts := by
  intro s hs
  induction script generalizing s with
  | finish outcome => exact ⟨hs, Nat.le_refl _⟩
  | resolve request resume ih =>
    obtain ⟨hquiet, hle⟩ := hr request.value.1 { s with state := request.value.2 } hs
    obtain ⟨hquiet', hle'⟩ := ih _ _ _ hquiet
    rw [exec_runScript_resolve]
    exact ⟨hquiet', Nat.le_trans hle hle'⟩

private theorem counts_callComponent (hr : ∀ n, (resolve n).Counts) (depth : Nat) (c : Component F)
    :
    (callComponent program config resolve depth c).Counts := by
  intro s hs
  cases c with
  | producer name => exact ⟨hs, Nat.le_refl _⟩
  | provider name =>
    rw [exec_callComponent_provider]
    exact counts_runScript hr _ s hs

theorem errors_invoke (hr : ∀ n, (resolve n).Counts) (depth : Nat) (c : Component F)
    {s : Scene σ} (hs : s.NoFailure) :
    s.counters.errors ≤ ((invoke program config resolve depth c).exec s).2.counters.errors ∧
    ∀ cause, ((invoke program config resolve depth c).exec s).1 = .error (.failed cause) →
      s.counters.errors < ((invoke program config resolve depth c).exec s).2.counters.errors := by
  have hcounts : (callComponent program config resolve depth c).Counts :=
    counts_callComponent hr depth c
  obtain ⟨hquiet, hle⟩ := hcounts (s.enterCall depth) hs
  have hentered : (s.enterCall depth).counters.errors = s.counters.errors := rfl
  rw [hentered] at hle
  rw [exec_invoke]
  generalize (callComponent program config resolve depth c).exec (s.enterCall depth) = p
    at hquiet hle ⊢
  obtain ⟨outcome, t⟩ := p
  cases hpending : t.pending with
  | some e =>
    simp only [hpending]
    refine ⟨hle, fun cause he => ?_⟩
    cases he
    exact absurd hpending (hquiet cause)
  | none =>
    cases outcome with
    | ok node =>
      simp only [hpending]
      exact ⟨hle, fun _ he => nomatch he⟩
    | error failure =>
      simp only [hpending]
      exact ⟨Nat.le_succ_of_le hle, fun _ _ => Nat.lt_succ_of_le hle⟩

theorem counts_invoke (hr : ∀ n, (resolve n).Counts) (depth : Nat) (c : Component F) :
    (invoke program config resolve depth c).Counts := fun _ hs =>
  ⟨Scene.noFailure_of_settled (pending_invoke ..), (errors_invoke hr depth c hs).1⟩

variable (hcontained : config.throwOnError = false)

include hcontained

private theorem counts_resolveFailed (e : RenderError) :
    (resolveFailed config e : Calls σ (Node F)).Counts := by
  intro s hs
  rw [exec_resolveFailed, hcontained]
  cases e with
  | failed cause => exact ⟨hs, Nat.le_refl _⟩
  | depthExceeded depth maxDepth => exact ⟨hs.postpone fun _ he => (nomatch he), Nat.le_refl _⟩
  | config cause => exact ⟨hs.postpone fun _ he => (nomatch he), Nat.le_refl _⟩

private theorem counts_resolveLevel {below : Node F → Calls σ (Node F)} (hb : ∀ n, (below n).Counts)
    (depth : Nat) (node : Node F) : (resolveLevel program config below depth node).Counts := by
  induction node using Node.inductOn with
  | empty => exact .unlessPending (.pure _)
  | text value => exact .unlessPending (.pure _)
  | component c =>
    refine .unlessPending (.bind (counts_invoke hb depth c) fun outcome => ?_)
    cases outcome with
    | ok node => exact hb node
    | error e => exact counts_resolveFailed hcontained e
  | collection nodes ih =>
    have members : (resolveMembers program config below depth nodes).Counts := by
      induction nodes with
      | nil => exact .pure _
      | cons n rest ihrest =>
        refine .bind (ih n (by simp)) fun _ => .bind (ihrest fun m hm => ih m (by simp [hm])) ?_
        exact fun _ => .pure _
    exact .unlessPending (.bind members fun _ => .pure _)
  | element e _ =>
    apply Calls.Counts.unlessPending
    cases e.children with
    | none => exact .pure _
    | some child => exact .bind (hb child) fun _ => .pure _

theorem counts_resolveFrom (levels depth : Nat) (node : Node F) :
    (resolveFrom program config levels depth node).Counts := by
  induction levels generalizing depth node with
  | zero =>
    apply Calls.Counts.unlessPending
    exact fun s hs => ⟨hs.postpone fun _ he => (nomatch he), Nat.le_refl _⟩
  | succ levels ih => exact counts_resolveLevel hcontained (ih (depth + 1)) depth node

end

theorem errors_directiveText (program : Program F σ) (directive : Directive F) (s : Scene σ) :
    s.counters.errors ≤ ((directiveText program directive).exec s).2.counters.errors ∧
    ∀ cause, ((directiveText program directive).exec s).1 = .error cause →
      s.counters.errors < ((directiveText program directive).exec s).2.counters.errors := by
  cases directive with
  | literal text => exact ⟨Nat.le_refl _, fun _ he => nomatch he⟩
  | computed name =>
    rw [exec_directiveText_computed]
    generalize (program.compute name s.state).value = computed
    obtain ⟨_ | text, state⟩ := computed
    · exact ⟨Nat.le_succ _, fun _ _ => Nat.lt_succ_self _⟩
    · exact ⟨Nat.le_refl _, fun _ he => nomatch he⟩

theorem pending_directiveText (program : Program F σ) (directive : Directive F) (s : Scene σ) :
    ((directiveText program directive).exec s).2.pending = s.pending := by
  cases directive with
  | literal text => rfl
  | computed name =>
    rw [exec_directiveText_computed]
    generalize (program.compute name s.state).value = computed
    obtain ⟨_ | _, _⟩ := computed <;> rfl

end TreeRender
