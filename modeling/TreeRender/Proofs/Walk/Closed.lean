import TreeRender.Proofs.Walk.Traversal

/-!
# Properties of walks

A walk changes its state in few ways: it calls functions and counts, reads the clock, looks up and
stores fragments if its backend has any, and has the backend make units. A property that each of
these steps has, and that doing one after the other keeps, is one of all walks. It may be of
interest for some trees only, say for those without functions.
-/

namespace TreeRender

variable {F σ β U α γ : Type}

/-- Nodes such that whatever is below one of them, or may come of it, is one of them too. -/
structure Node.Hereditary (N : Node F → Prop) : Prop where
  child : ∀ {e n}, N (.element e) → n ∈ e.childNodes → N n
  member : ∀ {nodes n}, N (.collection nodes) → n ∈ nodes → N n
  returned : ∀ {c} n, N (.component c) → N n

theorem Node.hereditary_true : Node.Hereditary fun _ : Node F => True := ⟨by simp, by simp, by simp⟩

/-- The operations of a backend in walks over such nodes. -/
inductive Backend.Operation (backend : Backend F β U) (N : Node F → Prop) :
    {α : Type} → StateT β Logged α → Prop
  | empty : Operation backend N backend.empty
  | text (content : String) : Operation backend N (backend.text content)
  | fragment (units : List U) : Operation backend N (backend.fragment units)
  | enter {e : Element F (Node F)} : Markup.isValidName e.tag = true → N (.element e) →
    Operation backend N (backend.enter e)
  | element {e : Element F (Node F)} (content : List U) : Markup.isValidName e.tag = true →
    N (.element e) → Operation backend N (backend.element e content)
  | fallback (text : String) : Operation backend N (backend.fallback text)
  | fromCache (fragment : String) : Operation backend N (backend.fromCache fragment)
  | toCache (unit : U) : Operation backend N (backend.toCache unit)

def Walk.lookUp (key : String) : Walk σ β (Option String) := do
  let (fragment, cache) := (← get).cache.get key (← Walk.now)
  modify ({ · with cache })
  return fragment

def Walk.store (key fragment : String) : Walk σ β Unit := do
  let now ← Walk.now
  modify fun s => { s with cache := s.cache.insert key fragment now }

private theorem cachedUnit_eq (config : Config) (backend : Backend F β U) (depth : Nat)
    (e : Element F (Node F)) : (cachedUnit config backend depth e : Walk σ β (Option U)) =
      if depth + e.height - 1 ≤ config.maxDepth then do
        match ← Walk.lookUp e.signature with
        | none => return none
        | some fragment => Walk.onBackend (backend.fromCache fragment)
      else return none := by
  unfold cachedUnit Walk.lookUp
  simp only [bind_assoc, pure_bind] <;> rfl

private theorem storeUnit_eq (backend : Backend F β U) (e : Element F (Node F)) (unit : U) :
    (storeUnit backend e unit : Walk σ β Unit) = (do
      match ← Walk.onBackend (backend.toCache unit) with
      | none => return ()
      | some fragment => Walk.store e.signature fragment) := rfl

/-- A property of parts of walks that single steps have, and one part after another. -/
structure Walk.Composable (backend : Backend F β U) (N : Node F → Prop)
    (P : {α : Type} → Walk σ β α → Prop) : Prop extends Node.Hereditary N where
  pure : ∀ {α : Type} (a : α), P (Pure.pure a : Walk σ β α)
  bind : ∀ {α γ : Type} {x : Walk σ β α} {f : α → Walk σ β γ}, P x → (∀ a, P (f a)) → P (x >>= f)
  logged : ∀ line : Logged Unit, P (liftM line : Walk σ β Unit)
  countElement : P (Walk.count Scene.countElement)
  countHit : P (Walk.count Scene.countHit)
  countMiss : P (Walk.count Scene.countMiss)
  operation : ∀ {α : Type} {x : StateT β Logged α}, backend.Operation N x → P (Walk.onBackend x)
  lookUp : backend.cachesFragments = true → ∀ key, P (Walk.lookUp key)
  store : backend.cachesFragments = true → ∀ key fragment, P (Walk.store key fragment)

/-- Besides, the steps that call functions have the property, along with what is done about their
failures, and so has the end at the depth limit. -/
structure Walk.Closed (program : Program F σ) (config : Config) (backend : Backend F β U)
    (N : Node F → Prop) (P : {α : Type} → Walk σ β α → Prop) : Prop
    extends Walk.Composable backend N P where
  directive : ∀ directive, P (walkDirective program config backend (some directive))
  component : ∀ {levels depth c} {below : Node F → Walk σ β U}, depth + levels = config.maxDepth →
    1 ≤ depth → N (.component c) → (∀ n, N n → P (below n)) → P (do
      match ← Walk.onScene
        (invoke program config (resolveFrom program config levels (depth + 1)) depth c) with
      | .ok node => below node
      | .error (.failed cause) => recover config backend cause
      | .error e => throw e)
  tooDeep : P (do
    reportDepth
    throw (config.depthError (config.maxDepth + 1)) : Walk σ β U)

variable {program : Program F σ} {config : Config} {backend : Backend F β U} {N : Node F → Prop}
  {P : {α : Type} → Walk σ β α → Prop}

namespace Walk.Composable

variable (h : Walk.Composable backend N P)

section

variable (throw : ∀ {α : Type} (e : RenderError), P (throw e : Walk σ β α))

include h throw

theorem recover (cause : CallError) : P (TreeRender.recover config backend cause) := by
  unfold TreeRender.recover
  split
  · exact throw _
  · exact h.bind (h.logged _) fun _ => h.operation (.fallback _)

variable (onScene : ∀ {α : Type} (x : Calls σ α), P (Walk.onScene x))

include onScene

theorem walkDirective (directive : Option (Directive F)) :
    P (TreeRender.walkDirective program config backend directive) := by
  cases directive with
  | none => exact h.pure _
  | some directive =>
    apply h.bind (onScene _)
    intro outcome
    cases outcome with
    | ok text => exact h.bind (h.operation (.text text)) fun _ => h.pure _
    | error cause => exact h.bind (h.recover throw cause) fun _ => h.pure _

theorem closed : Walk.Closed program config backend N P where
  toComposable := h
  directive directive := h.walkDirective throw onScene (some directive)
  component _ _ hc hbelow := by
    apply h.bind (onScene _)
    intro outcome
    cases outcome with
    | ok node => exact hbelow node (h.returned node hc)
    | error e =>
      cases e with
      | failed cause => exact h.recover throw cause
      | depthExceeded depth maxDepth => exact throw _
      | config cause => exact throw _
  tooDeep := h.bind (h.logged _) fun _ => throw _

end

include h

private theorem walkEach {f : Node F → Walk σ β U} (nodes : List (Node F))
    (hf : ∀ n ∈ nodes, P (f n)) :
    P (TreeRender.walkEach f nodes) := by
  induction nodes with
  | nil => exact h.pure _
  | cons n rest ih =>
    apply h.bind (hf n (by simp))
    intro u
    exact h.bind (ih fun m hm => hf m (by simp [hm])) fun _ => h.pure _

private theorem cachedUnit (hcaches : backend.cachesFragments = true) (depth : Nat)
    (e : Element F (Node F)) : P (TreeRender.cachedUnit config backend depth e) := by
  rw [cachedUnit_eq]
  split
  · apply h.bind (h.lookUp hcaches e.signature)
    intro fragment
    cases fragment with
    | none => exact h.pure _
    | some fragment => exact h.operation (.fromCache fragment)
  · exact h.pure _

private theorem storeUnit (hcaches : backend.cachesFragments = true) (e : Element F (Node F))
    (unit : U) :
    P (TreeRender.storeUnit backend e unit) := by
  rw [storeUnit_eq]
  apply h.bind (h.operation (.toCache unit))
  intro fragment
  cases fragment with
  | none => exact h.pure _
  | some fragment => exact h.store hcaches e.signature fragment

end Walk.Composable

namespace Walk.Closed

variable (h : Walk.Closed program config backend N P) {below : Node F → Walk σ β U}
  {e : Element F (Node F)}

include h

private theorem buildElement (hvalid : Markup.isValidName e.tag = true) (he : N (.element e))
    (hbelow : ∀ n, N n → P (below n)) :
    P (TreeRender.buildElement program config backend below e) := by
  have directive : P (walkDirective program config backend e.text) := by
    cases e.text with
    | none => exact h.pure _
    | some directive => exact h.directive directive
  cases hvoid : Markup.isVoid e.tag with
  | true =>
    rw [buildElement_void hvoid]
    exact h.bind (h.operation (.enter hvalid he)) fun _ => h.bind (h.logged _) fun _ =>
      h.operation (.element [] hvalid he)
  | false =>
    rw [buildElement_content hvoid]
    apply h.bind (h.operation (.enter hvalid he))
    intro _
    apply h.bind directive
    intro _
    apply h.bind (h.walkEach e.childNodes fun n hn => hbelow n (h.child he hn))
    intro _
    exact h.operation (.element _ hvalid he)

private theorem walkElement (depth : Nat) (he : N (.element e)) (hbelow : ∀ n, N n → P (below n)) :
    P (TreeRender.walkElement program config backend below depth e) := by
  cases hvalid : Markup.isValidName e.tag with
  | false =>
    rw [walkElement_invalid hvalid]
    exact h.bind (h.logged _) fun _ => h.operation .empty
  | true =>
    have built := h.buildElement hvalid he hbelow
    cases hcached : backend.cachesFragments && config.isCacheable e with
    | false =>
      rw [walkElement_uncached hvalid hcached]
      exact h.bind h.countElement fun _ => built
    | true =>
      obtain ⟨hcaches, -⟩ := Bool.and_eq_true_iff.1 hcached
      rw [walkElement_cached hvalid hcached]
      apply h.bind h.countElement
      intro _
      apply h.bind (h.cachedUnit hcaches depth e)
      rintro (_ | unit)
      · apply h.bind h.countMiss
        intro _
        exact h.bind built fun unit => h.bind (h.storeUnit hcaches e unit) fun _ => h.pure _
      · exact h.bind h.countHit fun _ => h.pure _

/-- A walk over one of the nodes has the property, at a level that the depth limit allows or at the
first one past it. -/
theorem walkFrom {levels depth : Nat} (hdepth : depth + levels = config.maxDepth + 1)
    (hpos : 1 ≤ depth) {node : Node F} (hnode : N node) :
    P (TreeRender.walkFrom program config backend levels depth node) := by
  rw [Traversal.walkFrom_eq_visit]
  induction levels generalizing depth node with
  | zero =>
    obtain rfl : depth = config.maxDepth + 1 := hdepth
    exact h.tooDeep
  | succ levels ih =>
    have hlevels : depth + 1 + levels = config.maxDepth + 1 := by omega
    have hbelow (n : Node F) (hn : N n) := ih hlevels (by omega) hn
    rw [Traversal.visit]
    induction node using Node.inductOn with
    | empty => exact h.operation .empty
    | text value => exact h.operation (.text _)
    | component c => exact h.component (by omega) hpos hnode hbelow
    | collection nodes ihnodes =>
      rw [Traversal.visitLevel, Traversal.visitMembers_eq]
      apply h.bind (h.walkEach nodes fun n hn => ihnodes n hn (h.member hnode hn))
      intro _
      exact h.operation (.fragment _)
    | element e _ => exact h.walkElement depth hnode hbelow

theorem walk {node : Node F} (hnode : N node) :
    P (TreeRender.walk program config backend 1 node) :=
  h.walkFrom (Nat.add_comm _ _) (Nat.le_refl 1) hnode

end Walk.Closed

/-- `R` relates the states before and after each thing that a walk over such nodes may do. -/
structure Backend.StepsWithin (backend : Backend F β U) (N : Node F → Prop)
    (R : WalkState σ β → WalkState σ β → Prop) : Prop extends Node.Hereditary N where
  refl : ∀ s, R s s
  trans : ∀ {s t u}, R s t → R t u → R s u
  scene : ∀ s scene, R s { s with toScene := scene }
  clock : ∀ s clock, R s { s with clock }
  lookUp : backend.cachesFragments = true → ∀ s key now,
    R s { s with cache := (s.cache.get key now).2 }
  store : backend.cachesFragments = true → ∀ s key fragment now,
    R s { s with cache := s.cache.insert key fragment now }
  operation : ∀ {α : Type} {x : StateT β Logged α}, backend.Operation N x → ∀ s,
    R s { s with backend := (x s.backend).value.2 }

/-- A part of a walk before and after which the states are related, however it ends. -/
def Walk.Within (R : WalkState σ β → WalkState σ β → Prop) (x : Walk σ β α) : Prop :=
  ∀ s, R s (x.exec s).2

namespace Backend.StepsWithin

variable {R : WalkState σ β → WalkState σ β → Prop} (h : backend.StepsWithin N R)

include h

theorem throw (e : RenderError) : Walk.Within R (throw e : Walk σ β α) := h.refl

theorem onScene (x : Calls σ α) : Walk.Within R (Walk.onScene x) := fun s => h.scene s _

theorem composable : Walk.Composable backend N fun x => Walk.Within R x where
  toHereditary := h.toHereditary
  pure _ := h.refl
  bind {_ _ x f} hx hf := by
    intro s
    have hfirst := hx s
    rw [Walk.exec_bind]
    generalize x.exec s = p at hfirst ⊢
    obtain ⟨e | a, t⟩ := p
    · exact hfirst
    · exact h.trans hfirst (hf a t)
  logged _ := h.refl
  countElement s := h.scene s _
  countHit s := h.scene s _
  countMiss s := h.scene s _
  operation hx := h.operation hx
  lookUp hcaches key s := h.trans (h.clock s s.clock.tick) (h.lookUp hcaches _ key s.clock.now)
  store hcaches key fragment s :=
    h.trans (h.clock s s.clock.tick) (h.store hcaches _ key fragment s.clock.now)

theorem closed : Walk.Closed program config backend N fun x => Walk.Within R x :=
  h.composable.closed h.throw h.onScene

end Backend.StepsWithin

end TreeRender
