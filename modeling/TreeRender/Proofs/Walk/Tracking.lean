import TreeRender.Proofs.Evaluation
import TreeRender.Walk

/-!
# Walks that track each other

Two parts of walks run side by side, over backends of their own. One tracks the other if from
related states they end alike: both with results, which are related across what the first backend
went through, or both with the same error. Either way the states are related again.
-/

namespace TreeRender

variable {F σ β β' α α' γ γ' : Type}

namespace Walk

theorem exec_bind_pure (x : Walk σ β α) (f : α → γ) (s : WalkState σ β) :
    (do let a ← x; return f a : Walk σ β γ).exec s = ((x.exec s).1.map f, (x.exec s).2) := by
  rw [exec_bind]
  generalize x.exec s = p
  obtain ⟨_ | a, t⟩ := p <;> rfl

/-- The ends of two walks agree: `S` relates the states, and `Q` the results, given the state in
which the first backend was left. -/
inductive Agree (S : WalkState σ β → WalkState σ β' → Prop) (Q : β → α → γ → Prop) :
    Except RenderError α × WalkState σ β → Except RenderError γ × WalkState σ β' → Prop
  | ok {a c s t} : Q s.backend a c → S s t → Agree S Q (.ok a, s) (.ok c, t)
  | error {e s t} : S s t → Agree S Q (.error e, s) (.error e, t)

variable {S : WalkState σ β → WalkState σ β' → Prop}

theorem Agree.imp {Q Q' : β → α → γ → Prop} {p q}
    (h : Agree S Q p q) (himp : ∀ b a c, Q b a c → Q' b a c) : Agree S Q' p q := by
  cases h with
  | ok hq hs => exact .ok (himp _ _ _ hq) hs
  | error hs => exact .error hs

theorem Agree.beside {Q : β → α → γ → Prop} {p q} (h : Agree S Q p q) : S p.2 q.2 := by
  cases h with
  | ok _ hs => exact hs
  | error hs => exact hs

/-- From states that `S` relates, with the first backend in `b`, the walks `x` and `y` end in
agreement: `Q` relates what they give, along with the first backend as it is left. -/
def Tracks (S : WalkState σ β → WalkState σ β' → Prop) (b : β) (Q : β → α → γ → Prop)
    (x : Walk σ β α) (y : Walk σ β' γ) : Prop :=
  ∀ s t, s.backend = b → S s t → Agree S Q (x.exec s) (y.exec t)

namespace Tracks

variable {b : β} {Q : β → α → γ → Prop} {Q' : β → α' → γ' → Prop} {x : Walk σ β α}
  {y : Walk σ β' γ}

theorem pure {a : α} {c : γ} (h : Q b a c) :
    Tracks S b Q (Pure.pure a) (Pure.pure c : Walk σ β' γ) := by
  rintro s t rfl hs
  exact .ok h hs

theorem throw (e : RenderError) :
    Tracks S b Q (throw e : Walk σ β α) (throw e : Walk σ β' γ) :=
  fun _ _ _ hs => .error hs

theorem bind {f : α → Walk σ β α'} {g : γ → Walk σ β' γ'} (hx : Tracks S b Q x y)
    (hf : ∀ b₁ a c, Q b₁ a c → Tracks S b₁ Q' (f a) (g c)) :
    Tracks S b Q' (x >>= f) (y >>= g) := by
  intro s t hb hs
  rw [exec_bind, exec_bind]
  have agree := hx s t hb hs
  generalize x.exec s = p at agree ⊢
  generalize y.exec t = q at agree ⊢
  cases agree with
  | ok hq hs' => exact hf _ _ _ hq _ _ rfl hs'
  | error hs' => exact .error hs'

theorem imp {Q' : β → α → γ → Prop} (hx : Tracks S b Q x y)
    (himp : ∀ b₁ a c, Q b₁ a c → Q' b₁ a c) : Tracks S b Q' x y :=
  fun s t hb hs => (hx s t hb hs).imp himp

theorem self (x : Walk σ β α) (b : β) : Tracks Eq b (fun _ a c => a = c) x x := by
  rintro s _ - rfl
  generalize x.exec s = p
  obtain ⟨_ | a, t⟩ := p
  · exact .error rfl
  · exact .ok rfl rfl

theorem step {f : α → Walk σ β α'} {g : α → Walk σ β γ} {R : β → α' → γ → Prop} (x : Walk σ β α)
    (h : ∀ b₁ a, Tracks Eq b₁ R (f a) (g a)) : Tracks Eq b R (x >>= f) (x >>= g) :=
  (self x b).bind fun b₁ a _ ha => ha ▸ h b₁ a

theorem onScene {R : α → γ → Prop} {x : Calls σ α} {y : Calls σ γ}
    (h : ∀ s, R (x.exec s).1 (y.exec s).1 ∧ (y.exec s).2 = (x.exec s).2) :
    Tracks Eq b (fun _ => R) (Walk.onScene x : Walk σ β α) (Walk.onScene y) := by
  rintro s _ - rfl
  obtain ⟨hresult, hscene⟩ := h s.toScene
  rw [exec_onScene, exec_onScene, hscene]
  exact .ok hresult rfl

theorem and_right {P : γ → Prop} (hx : Tracks S b Q x y)
    (hy : ∀ t c t', y.exec t = (.ok c, t') → P c) :
    Tracks S b (fun b₁ a c => Q b₁ a c ∧ P c) x y := by
  intro s t hb hs
  have agree := hx s t hb hs
  generalize x.exec s = p at agree ⊢
  generalize hq : y.exec t = q at agree ⊢
  cases agree with
  | ok hab hs' => exact .ok ⟨hab, hy t _ _ hq⟩ hs'
  | error hs' => exact .error hs'

theorem after {u : Walk σ β Unit} {v : Walk σ β' Unit} (f : WalkState σ β → WalkState σ β)
    (g : WalkState σ β' → WalkState σ β') (hu : ∀ s, u.exec s = (.ok (), f s))
    (hv : ∀ t, v.exec t = (.ok (), g t)) (hb : ∀ s, (f s).backend = s.backend)
    (hs : ∀ s t, S s t → S (f s) (g t)) (hx : Tracks S b Q x y) :
    Tracks S b Q (do u; x) (do v; y) := by
  intro s t hsb h
  rw [exec_bind, exec_bind, hu s, hv t]
  exact hx (f s) (g t) ((hb s).trans hsb) (hs s t h)

theorem logged (line line' : Logged Unit) (hx : Tracks S b Q x y) :
    Tracks S b Q (do liftM line; x) (do liftM line'; y) :=
  .after id id (fun _ => rfl) (fun _ => rfl) (fun _ => rfl) (fun _ _ hs => hs) hx

theorem counted (f : Scene σ → Scene σ) (hs : ∀ s t, S s t →
      S { s with toScene := f s.toScene } { t with toScene := f t.toScene })
    (hx : Tracks S b Q x y) : Tracks S b Q (do Walk.count f; x) (do Walk.count f; y) :=
  .after _ _ (fun _ => rfl) (fun _ => rfl) (fun _ => rfl) hs hx

theorem afterLeft {u : Walk σ β Unit} (f : WalkState σ β → WalkState σ β)
    (hu : ∀ s, u.exec s = (.ok (), f s)) (hb : ∀ s, (f s).backend = s.backend)
    (hs : ∀ s t, S s t → S (f s) t) (hx : Tracks S b Q x y) : Tracks S b Q (do u; x) y := by
  intro s t hsb h
  rw [exec_bind, hu s]
  exact hx (f s) t ((hb s).trans hsb) (hs s t h)

variable {U V : Type} {program : Program F σ} {config : Config} {X : Backend F β U}
  {Y : Backend F β' V} {R : β → U → V → Prop}

theorem recover (cause : CallError)
    (h : Tracks S b R (Walk.onBackend (X.fallback config.errorFallback))
      (Walk.onBackend (Y.fallback config.errorFallback))) :
    Tracks S b R (TreeRender.recover config X cause) (TreeRender.recover config Y cause) := by
  unfold TreeRender.recover
  cases config.throwOnError with
  | true => exact .throw _
  | false => exact h.logged _ _

/-- Backends that go along at a text and at a fallback go along at a text directive. -/
theorem walkDirective {L : β → List U → List V → Prop} (directive : Option (Directive F))
    (nil : L b [] []) (single : ∀ b₁ u v, R b₁ u v → L b₁ [u] [v])
    (calls : ∀ d, Tracks S b (fun b₁ a c => b₁ = b ∧ a = c)
      (Walk.onScene (directiveText program d)) (Walk.onScene (directiveText program d)))
    (text : ∀ content, Tracks S b R (Walk.onBackend (X.text content))
      (Walk.onBackend (Y.text content)))
    (fallback : Tracks S b R (Walk.onBackend (X.fallback config.errorFallback))
      (Walk.onBackend (Y.fallback config.errorFallback))) :
    Tracks S b L (TreeRender.walkDirective program config X directive)
      (TreeRender.walkDirective program config Y directive) := by
  cases directive with
  | none => exact .pure nil
  | some d =>
    apply (calls d).bind
    rintro _ outcome _ ⟨rfl, rfl⟩
    cases outcome with
    | ok content => exact (text content).bind fun _ _ _ h => .pure (single _ _ _ h)
    | error cause => exact (fallback.recover cause).bind fun _ _ _ h => .pure (single _ _ _ h)

end Tracks

end Walk

end TreeRender
