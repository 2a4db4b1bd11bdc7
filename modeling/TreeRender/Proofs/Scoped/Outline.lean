import TreeRender.Proofs.Outline.Twin
import TreeRender.Proofs.Scoped.Resolved

/-!
# The outline of a resolved tree

Where the functions in a tree are pure and do not fail, the tree and what a scope resolves it to
have outlines that show the same. A level that resolving takes away only leaves more levels for the
rest, and a component that comes to a collection gives an element the children that the collection
would.
-/

namespace TreeRender

open Markup

variable {F σ α γ : Type} {program : Program F σ} {config : Config} {unfold : F → Node F}
  {label : F → String}

/-- A part of a walk that gives `a` whatever the functions' state is, and counts no failure. -/
def Walk.Gives (x : Walk σ Unit α) (a : α) : Prop :=
  ∀ s, s.pending = none →
    ∃ t, x.exec s = (.ok a, t) ∧ t.pending = none ∧ t.counters.errors = s.counters.errors

namespace Walk.Gives

theorem pure (a : α) : Walk.Gives (Pure.pure a : Walk σ Unit α) a := fun s hs => ⟨s, rfl, hs, rfl⟩

private theorem logged (x : Logged α) : Walk.Gives (liftM x : Walk σ Unit α) x.value :=
  fun s hs => ⟨s, rfl, hs, rfl⟩

theorem onBackend (x : StateT Unit Logged α) :
    Walk.Gives (Walk.onBackend x : Walk σ Unit α) (x ()).value.1 :=
  fun _ hs => ⟨_, rfl, hs, rfl⟩

private theorem countElement : Walk.Gives (Walk.count Scene.countElement : Walk σ Unit Unit) () :=
  fun _ hs => ⟨_, rfl, hs, rfl⟩

theorem bind {x : Walk σ Unit α} {a : α} {f : α → Walk σ Unit γ} {c : γ} (hx : Walk.Gives x a)
    (hf : Walk.Gives (f a) c) : Walk.Gives (x >>= f) c := by
  intro s hs
  obtain ⟨t, ht, hpending, herrors⟩ := hx s hs
  obtain ⟨u, hu, hpending', herrors'⟩ := hf t hpending
  exact ⟨u, (Walk.exec_bind_ok f ht).trans hu, hpending', herrors'.trans herrors⟩

theorem cons {f : Node F → Walk σ Unit (Outline F)} {n : Node F} {rest : List (Node F)}
    {o : Outline F} {os : List (Outline F)} (hn : Walk.Gives (f n) o)
    (hrest : Walk.Gives (walkEach f rest) os) : Walk.Gives (walkEach f (n :: rest)) (o :: os) :=
  hn.bind (hrest.bind (pure _))

end Walk.Gives

section

variable (program config)

def ShowAs (levels depth : Nat) (nodes : List (Node F)) (o : Outline F) : Prop :=
  ∃ os, Walk.Gives (walkEach (outlineFrom program config levels depth) nodes) os ∧
    Outline.join os = o

/-- The outline of a node is `o`, by itself and as the children of an element. -/
structure Shows (levels depth : Nat) (node : Node F) (o : Outline F) : Prop where
  alone : Walk.Gives (outlineFrom program config levels depth node) o
  children : ShowAs program config levels depth node.asChildren o

end

namespace ShowAs

variable {levels depth : Nat}

theorem nil : ShowAs program config levels depth [] .nil := ⟨[], .pure _, rfl⟩

theorem cons {n : Node F} {rest : List (Node F)} {o o' : Outline F}
    (hn : Walk.Gives (outlineFrom program config levels depth n) o)
    (hrest : ShowAs program config levels depth rest o') :
    ShowAs program config levels depth (n :: rest) (o ++ o') := by
  obtain ⟨os, hos, rfl⟩ := hrest
  exact ⟨o :: os, hn.cons hos, rfl⟩

end ShowAs

namespace Shows

variable {levels depth : Nat}

theorem of_single {node : Node F} {o : Outline F} (hsingle : node.asChildren = [node])
    (h : Walk.Gives (outlineFrom program config levels depth node) o) :
    Shows program config levels depth node o := by
  refine ⟨h, ?_⟩
  rw [hsingle, ← Outline.append_nil o]
  exact .cons h .nil

private theorem empty : Shows program config (levels + 1) depth .empty .nil := of_single rfl
    (.onBackend _)

private theorem text (value : Scalar) :
    Shows program config (levels + 1) depth (.text value) (.text value.text .nil) :=
  of_single rfl (.onBackend _)

theorem producer {name : F} {node : Node F} {o : Outline F}
    (hproducer : ∀ s, (program.produce name s).value.1 = .ok node)
    (h : Walk.Gives (outlineFrom program config levels (depth + 1) node) o) :
    Shows program config (levels + 1) depth (.component (.producer name)) o := by
  refine of_single rfl fun s hs => ?_
  obtain ⟨t, hcall, hpending, hcounters⟩ := exec_invoke_producer hproducer
    (resolveFrom program config levels (depth + 1)) depth (s := s.toScene) hs
  obtain ⟨u, hu, hpending', herrors⟩ := h { s with toScene := t } hpending
  have herrors' : t.counters.errors = s.counters.errors := congrArg Counters.errors hcounters
  refine ⟨u, ?_, hpending', herrors.trans herrors'⟩
  rw [exec_outline_component, hcall]
  exact hu

private theorem collection {nodes : List (Node F)} {o : Outline F}
    (h : ShowAs program config (levels + 1) depth nodes o) :
    Shows program config (levels + 1) depth (.collection nodes) o := by
  refine ⟨?_, h⟩
  obtain ⟨os, hos, rfl⟩ := h
  rw [outlineFrom_collection]
  exact hos.bind (.onBackend _)

private theorem element {e : Element F (Node F)} {directive : List (Outline F)}
    {content : Outline F}
    (hdirective : Walk.Gives (walkDirective program config Outline.backend e.text) directive)
    (h : ShowAs program config levels (depth + 1) e.childNodes content) :
    Shows program config (levels + 1) depth (.element e)
      (e.around (Outline.join directive ++ content)) := by
  refine of_single rfl ?_
  change Walk.Gives (walkElement program config Outline.backend _ depth e) _
  unfold Element.around
  cases hvalid : isValidName e.tag with
  | false =>
    rw [walkElement_invalid hvalid]
    exact (Walk.Gives.logged _).bind (.onBackend _)
  | true =>
    rw [walkElement_uncached hvalid rfl]
    refine Walk.Gives.countElement.bind ?_
    cases hvoid : isVoid e.tag with
    | true =>
      rw [buildElement_void hvoid]
      exact (Walk.Gives.onBackend _).bind ((Walk.Gives.logged _).bind (.onBackend _))
    | false =>
      obtain ⟨os, hos, rfl⟩ := h
      rw [buildElement_content hvoid, ← Outline.join_append]
      exact (Walk.Gives.onBackend _).bind (hdirective.bind (hos.bind (.onBackend _)))

end Shows

variable (program config) in
private theorem gives_walkDirective {directive : Option (Directive F)}
    (h : ∀ name, directive = some (.computed name) →
      ∀ s, (program.compute name s).value.1 = .ok (label name)) :
    ∃ os, Walk.Gives (walkDirective program config Outline.backend directive) os := by
  match directive with
  | none => exact ⟨[], .pure _⟩
  | some (.literal text) => exact ⟨[.text text .nil], fun s hs => ⟨_, rfl, hs, rfl⟩⟩
  | some (.computed name) =>
    refine ⟨[.text (label name) .nil], fun s hs => ?_⟩
    have hcompute := h name rfl s.state
    simp only [walkDirective]
    rw [Walk.exec_bind, Walk.exec_onScene, exec_directiveText_computed]
    simp only [hcompute]
    exact ⟨_, rfl, hs, rfl⟩

private theorem showAs_twin {levels depth more depth' : Nat} {resolved : Node F → Node F}
    {nodes : List (Node F)}
    (h : ∀ n ∈ nodes, ∃ o o', o.Twin o' ∧ Shows program config levels depth n o ∧
      Shows program config more depth' (resolved n) o') :
    ∃ o o', o.Twin o' ∧ ShowAs program config levels depth nodes o ∧
      ShowAs program config more depth' (nodes.map resolved) o' := by
  induction nodes with
  | nil => exact ⟨.nil, .nil, .nil, .nil, .nil⟩
  | cons n rest ih =>
    obtain ⟨o, o', htwin, hn, hn'⟩ := h n (by simp)
    obtain ⟨os, os', htwins, hrest, hrest'⟩ := ih fun m hm => h m (by simp [hm])
    exact ⟨o ++ os, o' ++ os', htwin.append htwins, .cons hn.alone hrest, .cons hn'.alone hrest'⟩

variable (config) in
/-- A tree that can be resolved and what it is resolved to show the same, also where more levels are
left for the latter. -/
theorem shows_resolvedFrom {levels : Nat} {node : Node F} (hfits : FitsScope unfold levels node)
    (hsteady : program.Steady unfold label node) (depth : Nat) {more : Nat} (hmore : levels ≤ more)
    (depth' : Nat) :
    ∃ o o', o.Twin o' ∧ Shows program config levels depth node o ∧
      Shows program config more depth' (node.resolvedFrom unfold levels) o' := by
  -- A producer takes a level that its resolved tree does not take, so there may be more levels left
  -- for the resolved tree than for the tree, and it stands at another depth.
  induction hfits generalizing depth more depth' with
  | empty =>
    obtain ⟨more, rfl⟩ := Nat.exists_eq_add_of_le' (Nat.le_of_add_left_le hmore)
    exact ⟨.nil, .nil, .nil, .empty, .empty⟩
  | @text levels value =>
    obtain ⟨more, rfl⟩ := Nat.exists_eq_add_of_le' (Nat.le_of_add_left_le hmore)
    exact ⟨_, _, .refl _, .text value, .text value⟩
  | @producer levels name _ ih =>
    obtain ⟨o, o', htwin, hnode, hresolved⟩ :=
      ih (hsteady.of_reaches (.produced .self)) (depth + 1) (Nat.le_of_succ_le hmore) depth'
    exact ⟨o, o', htwin, .producer (hsteady.producer name .self) hnode.alone, hresolved⟩
  | provider => exact absurd .self (hsteady.provider _)
  | @collection levels nodes _ ih =>
    obtain ⟨more, rfl⟩ := Nat.exists_eq_add_of_le' (Nat.le_of_add_left_le hmore)
    obtain ⟨o, o', htwin, hnodes, hresolved⟩ := showAs_twin fun n hn =>
      ih n hn (hsteady.of_reaches (.member .self hn)) depth hmore depth'
    rw [Node.resolvedFrom_collection]
    exact ⟨o, o', htwin, .collection hnodes, .collection hresolved⟩
  | @element levels e _ ih =>
    obtain ⟨more, rfl⟩ := Nat.exists_eq_add_of_le' (Nat.le_of_add_left_le hmore)
    obtain ⟨directive, hdirective⟩ :=
      gives_walkDirective program config fun name => hsteady.computed e name .self
    cases hc : e.children with
    | none =>
      have none (l d : Nat) : ShowAs program config l d e.childNodes .nil := by
        rw [e.childNodes_none hc]
        exact .nil
      rw [Node.resolvedFrom_childless levels hc]
      exact ⟨_, _, .refl _, .element hdirective (none _ _), .element hdirective (none _ _)⟩
    | some child =>
      obtain ⟨o, o', htwin, hchild, hresolved⟩ := ih child hc (hsteady.of_reaches (.child .self hc))
        (depth + 1) (Nat.le_of_succ_le_succ hmore) (depth' + 1)
      let e' := e.withChild (child.resolvedFrom unfold levels)
      have hchildren : ShowAs program config levels (depth + 1) e.childNodes o :=
        e.childNodes_some hc ▸ hchild.children
      have hchildren' : ShowAs program config more (depth' + 1) e'.childNodes o' :=
        e'.childNodes_some rfl ▸ hresolved.children
      rw [Node.resolvedFrom_element levels hc]
      refine ⟨_, _, ?_, .element hdirective hchildren, .element hdirective hchildren'⟩
      exact e.twin_around e' rfl rfl ((Outline.Twin.refl _).append htwin)

end TreeRender
