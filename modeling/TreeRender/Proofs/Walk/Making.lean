import TreeRender.Proofs.Walk.Traversal

/-!
# What a walk makes

On its way to a unit, a walk makes others. What relates the states before and after a step to the
units made by it relates those before and after a walk to its unit, if it composes. A walk that ends
with an error has made some of the units, so a second relation says what is left of that.
-/

namespace TreeRender

variable {F σ β U α γ : Type}

namespace Walk

/-- How a part of a walk ends: with a result and a state as `Q` says, or with an error in a state as
`E` says. -/
def Ends (E : WalkState σ β → Prop) (Q : α → WalkState σ β → Prop) :
    Except RenderError α × WalkState σ β → Prop
  | (.ok a, t) => Q a t
  | (.error _, t) => E t

variable {E E' : WalkState σ β → Prop} {Q Q' : α → WalkState σ β → Prop}

theorem Ends.imp {p : Except RenderError α × WalkState σ β} (h : Ends E Q p)
    (herror : ∀ t, E t → E' t) (hok : ∀ a t, Q a t → Q' a t) : Ends E' Q' p := by
  obtain ⟨_ | a, t⟩ := p
  · exact herror t h
  · exact hok a t h

theorem Ends.bind {R : γ → WalkState σ β → Prop} {x : Walk σ β α} {f : α → Walk σ β γ}
    {s : WalkState σ β} (hx : Ends E Q (x.exec s))
    (hf : ∀ a t, Q a t → Ends E R ((f a).exec t)) : Ends E R ((x >>= f).exec s) := by
  rw [exec_bind]
  generalize x.exec s = p at hx ⊢
  obtain ⟨_ | a, t⟩ := p
  · exact hx
  · exact hf a t hx

def Makes (E : WalkState σ β → WalkState σ β → Prop)
    (R : WalkState σ β → WalkState σ β → List U → Prop) (s : WalkState σ β) (x : Walk σ β U) : Prop :=
  Ends (E s) (fun u t => R s t [u]) (x.exec s)

end Walk

/-- `R s t us` says that the units `us` were made from the state `s` to `t`, and `E s t` that an error
has left a walk in `t` that began in `s`. What was made before the error is left. -/
structure Composes (E : WalkState σ β → WalkState σ β → Prop)
    (R : WalkState σ β → WalkState σ β → List U → Prop) : Prop where
  stop : ∀ s, E s s
  error : ∀ {s t u us}, R s t us → E t u → E s u
  nil : ∀ s, R s s []
  append : ∀ {s t u us vs}, R s t us → R t u vs → R s u (us ++ vs)
  calls : ∀ {α : Type} {x : Calls σ α}, x.Blind → ∀ s : WalkState σ β,
    R s { s with toScene := (x.exec s.toScene).2 } []

variable {E : WalkState σ β → WalkState σ β → Prop}
  {R : WalkState σ β → WalkState σ β → List U → Prop}

namespace Composes

variable (h : Composes E R) {s t : WalkState σ β} {us : List U}

include h

theorem after (hmade : R s t us) {f : α → List U} {p : Except RenderError α × WalkState σ β}
    (hp : Walk.Ends (E t) (fun a v => R t v (f a)) p) :
    Walk.Ends (E s) (fun a v => R s v (us ++ f a)) p :=
  hp.imp (fun _ => h.error hmade) fun _ _ => h.append hmade

private theorem bind_calls {x : Calls σ α} (hx : x.Blind) (s : WalkState σ β) {f : α → Walk σ β γ}
    {g : γ → List U} (hf : ∀ a t, Walk.Ends (E t) (fun c v => R t v (g c)) ((f a).exec t)) :
    Walk.Ends (E s) (fun c v => R s v (g c)) ((Walk.onScene x >>= f).exec s) :=
  h.after (h.calls hx s) (hf _ _)

theorem walkEach {f : Node F → Walk σ β U} (nodes : List (Node F))
    (hf : ∀ n ∈ nodes, ∀ s, Walk.Makes E R s (f n)) (s : WalkState σ β) :
    Walk.Ends (E s) (fun us t => R s t us) ((TreeRender.walkEach f nodes).exec s) := by
  induction nodes generalizing s with
  | nil => exact h.nil s
  | cons n rest ih =>
    apply Walk.Ends.bind (hf n (by simp) s)
    intro u t hu
    apply Walk.Ends.bind (h.after hu (ih (fun m hm => hf m (by simp [hm])) t))
    intro us v hus
    exact hus

end Composes

structure Traversal.Makes (program : Program F σ) (config : Config)
    (E : WalkState σ β → WalkState σ β → Prop) (R : WalkState σ β → WalkState σ β → List U → Prop)
    (X : Traversal F σ β U) : Prop extends Composes E R where
  empty : ∀ s, Walk.Makes E R s X.empty
  text : ∀ text s, Walk.Makes E R s (X.text text)
  fragment : ∀ {s t us}, R s t us →
    Walk.Ends (E s) (fun u v => R s v [u]) ((X.fragment us).exec t)
  recover : ∀ cause s, Walk.Makes E R s (X.recover cause)
  element : ∀ levels depth, (∀ n s, Walk.Makes E R s (X.visit program config levels (depth + 1) n)) →
    ∀ e s, Walk.Makes E R s (X.element (X.visit program config levels (depth + 1)) levels depth e)

theorem Traversal.Makes.visit {program : Program F σ} {config : Config} {X : Traversal F σ β U}
    (h : X.Makes program config E R) (levels depth : Nat) (node : Node F) (s : WalkState σ β) :
    Walk.Makes E R s (X.visit program config levels depth node) := by
  induction levels generalizing depth node s with
  | zero => exact h.stop s
  | succ levels ih =>
    rw [Traversal.visit]
    induction node using Node.inductOn generalizing s with
    | empty => exact h.empty s
    | text value => exact h.text value.text s
    | component c =>
      have resolves := blind_resolveFrom program config levels (depth + 1)
      apply h.bind_calls (blind_invoke program config resolves depth c)
      intro outcome t
      cases outcome with
      | ok node => exact ih (depth + 1) node t
      | error e =>
        cases e with
        | failed cause => exact h.recover cause t
        | depthExceeded depth maxDepth => exact h.stop t
        | config cause => exact h.stop t
    | collection nodes ihnodes =>
      simp only [Traversal.visitLevel, visitMembers_eq]
      exact (h.walkEach nodes ihnodes s).bind fun _ _ hus => h.fragment hus
    | element e _ => exact h.element levels depth (ih (depth + 1)) e s

theorem Traversal.Makes.walkFrom {program : Program F σ} {config : Config} {backend : Backend F β U}
    (h : (Traversal.ofBackend program config backend).Makes program config E R) (levels depth : Nat)
    (node : Node F) (s : WalkState σ β) :
    Walk.Makes E R s (TreeRender.walkFrom program config backend levels depth node) := by
  rw [Traversal.walkFrom_eq_visit]
  exact h.visit levels depth node s

def WalkState.entering (backend : Backend F β U) (e : Element F (Node F)) (s : WalkState σ β) :
    WalkState σ β :=
  { s with backend := (backend.enter e s.backend).value.2 }

def WalkState.counting (s : WalkState σ β) : WalkState σ β :=
  { s with toScene := s.toScene.countElement }

/-- What a backend makes of each part of a tree, where elements are made anew. -/
structure Backend.Makes (fallback : String) (E : WalkState σ β → WalkState σ β → Prop)
    (R : WalkState σ β → WalkState σ β → List U → Prop) (backend : Backend F β U) : Prop
    extends Composes E R where
  empty : ∀ s, Walk.Makes E R s (Walk.onBackend backend.empty)
  text : ∀ text s, Walk.Makes E R s (Walk.onBackend (backend.text text))
  fallback : ∀ s, Walk.Makes E R s (Walk.onBackend (backend.fallback fallback))
  fragment : ∀ {s t us}, R s t us →
    Walk.Ends (E s) (fun u v => R s v [u]) ((Walk.onBackend (backend.fragment us)).exec t)
  enter : ∀ {s t} e, E (s.counting.entering backend e) t → E s t
  element : ∀ {s t us} e, Markup.isValidName e.tag = true → (Markup.isVoid e.tag = true → us = []) →
    R (s.counting.entering backend e) t us →
    Walk.Ends (E s) (fun u v => R s v [u]) ((Walk.onBackend (backend.element e us)).exec t)

namespace Backend.Makes

variable {program : Program F σ} {config : Config} {backend : Backend F β U}
  (h : backend.Makes config.errorFallback E R)

include h

theorem recover (cause : CallError) (s : WalkState σ β) :
    Walk.Makes E R s (TreeRender.recover config backend cause) := by
  unfold TreeRender.recover
  split
  · exact h.stop s
  · exact h.fallback s

theorem walkDirective (directive : Option (Directive F)) (s : WalkState σ β) :
    Walk.Ends (E s) (fun us t => R s t us)
      ((TreeRender.walkDirective program config backend directive).exec s) := by
  cases directive with
  | none => exact h.nil s
  | some directive =>
    apply h.bind_calls (blind_directiveText program directive)
    intro outcome t
    cases outcome with
    | ok text => exact Walk.Ends.bind (h.text text t) fun _ _ hu => hu
    | error cause => exact Walk.Ends.bind (h.recover cause t) fun _ _ hu => hu

theorem buildElement {below : Node F → Walk σ β U} (hbelow : ∀ n s, Walk.Makes E R s (below n))
    (e : Element F (Node F)) (s : WalkState σ β) {E' : WalkState σ β → Prop}
    {Q : U → WalkState σ β → Prop} (herror : ∀ t, E (s.entering backend e) t → E' t)
    (hmade : ∀ us t, (Markup.isVoid e.tag = true → us = []) → R (s.entering backend e) t us →
      Walk.Ends E' Q ((Walk.onBackend (backend.element e us)).exec t)) :
    Walk.Ends E' Q ((TreeRender.buildElement program config backend below e).exec s) := by
  cases hvoid : Markup.isVoid e.tag with
  | true =>
    rw [buildElement_void hvoid]
    exact hmade [] (s.entering backend e) (fun _ => rfl) (h.nil _)
  | false =>
    rw [buildElement_content hvoid, Walk.exec_bind_ok _ (t := s.entering backend e) rfl]
    apply ((h.walkDirective e.text (s.entering backend e)).imp herror fun _ _ hus => hus).bind
    intro us t hus
    apply ((h.after hus (h.walkEach e.childNodes (fun n _ => hbelow n) t)).imp herror
      fun _ _ hvs => hvs).bind
    intro vs u hvs
    exact hmade (us ++ vs) u (fun hv => nomatch hvoid.symm.trans hv) hvs

theorem traversal (hcached : ∀ {below : Node F → Walk σ β U}, (∀ n s, Walk.Makes E R s (below n)) →
      ∀ depth e, Markup.isValidName e.tag = true →
        (backend.cachesFragments && config.isCacheable e) = true →
          ∀ s, Walk.Makes E R s (walkElement program config backend below depth e)) :
    (Traversal.ofBackend program config backend).Makes program config E R where
  toComposes := h.toComposes
  empty := h.empty
  text := h.text
  fragment := h.fragment
  recover := h.recover
  element levels depth hbelow e s := by
    change Walk.Makes E R s (walkElement program config backend _ depth e)
    cases hvalid : Markup.isValidName e.tag with
    | false =>
      rw [walkElement_invalid hvalid]
      exact h.empty s
    | true =>
      cases hfragments : backend.cachesFragments && config.isCacheable e with
      | true => exact hcached hbelow depth e hvalid hfragments s
      | false =>
        rw [walkElement_uncached hvalid hfragments, Walk.Makes,
          Walk.exec_bind_ok _ (t := s.counting) rfl]
        exact h.buildElement hbelow e s.counting (fun _ => h.enter e)
          fun _ _ hvoid hus => h.element e hvalid hvoid hus

theorem ofBackend (program : Program F σ) (huncached : backend.cachesFragments = false) :
    (Traversal.ofBackend program config backend).Makes program config E R :=
  h.traversal fun _ _ _ _ hcached => by simp [huncached] at hcached

end Backend.Makes

end TreeRender
