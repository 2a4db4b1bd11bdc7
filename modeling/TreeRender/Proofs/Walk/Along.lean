import Mathlib.Data.List.Forall2
import TreeRender.Proofs.Walk.Traversal

/-!
# Walks that know the way

A walk tells its backend when it enters an element and when it makes it, and nothing else about
where it is. Here a walk carries the elements that it is inside of, and has a backend for each such
way. Two families of backends whose operations keep in step, whatever the way, keep in step on every
tree, however the walks end.
-/

namespace TreeRender

variable {F σ β β' U V : Type}

namespace Traversal

section

variable (program : Program F σ) (config : Config)

/-- The traversal that goes on as `below` says in the content of each element. -/
def descending (X : Traversal F σ β U) (below : Element F (Node F) → Node F → Walk σ β U) :
    Traversal F σ β U :=
  { X with element := fun _ levels depth e => X.element (below e) levels depth e }

/-- Visits a node at `depth` inside of the elements `around`, innermost first. -/
def visitAlong (X : List (Element F (Node F)) → Traversal F σ β U) :
    (levels depth : Nat) → (around : List (Element F (Node F))) → Node F → Walk σ β U
  | 0, depth, _, _ => do
    reportDepth
    throw (config.depthError depth)
  | levels + 1, depth, around, node =>
    ((X around).descending fun e => visitAlong X levels (depth + 1) (e :: around)).visitLevel
      program config (resolveFrom program config levels (depth + 1))
      (visitAlong X levels (depth + 1) around) levels depth node

private theorem visitLevel_descending (X : Traversal F σ β U) (resolve : Node F → Calls σ (Node F))
    (below : Node F → Walk σ β U) (levels depth : Nat) (node : Node F) :
    (X.descending fun _ => below).visitLevel program config resolve below levels depth node =
      X.visitLevel program config resolve below levels depth node := by
  induction node using Node.inductOn with
  | collection nodes ih =>
    simp only [visitLevel, visitMembers_eq]
    congr 1
    induction nodes with
    | nil => rfl
    | cons n rest ihrest =>
      rw [walkEach, walkEach, ih n (by simp), ihrest fun m hm => ih m (by simp [hm])]
  | _ => rfl

private theorem visitAlong_const (X : Traversal F σ β U) (levels depth : Nat)
    (around : List (Element F (Node F))) (node : Node F) :
    visitAlong program config (fun _ => X) levels depth around node =
      X.visit program config levels depth node := by
  induction levels generalizing depth around node with
  | zero => rfl
  | succ levels ih =>
    have below (around : List (Element F (Node F))) :
        visitAlong program config (fun _ => X) levels (depth + 1) around =
          X.visit program config levels (depth + 1) := funext (ih (depth + 1) around)
    simp only [visitAlong, below, visit]
    exact visitLevel_descending program config X _ _ levels depth node

end

end Traversal

section

variable (program : Program F σ) (config : Config)

/-- Walks a node at `depth` inside of the elements `around`, with the backend for these. -/
def walkAlong (backend : List (Element F (Node F)) → Backend F β U) (levels depth : Nat)
    (around : List (Element F (Node F))) (node : Node F) : Walk σ β U :=
  Traversal.visitAlong program config
    (fun around => .ofBackend program config (backend around)) levels depth around node

theorem walkAlong_const (backend : Backend F β U) (levels depth : Nat)
    (around : List (Element F (Node F))) (node : Node F) :
    walkAlong program config (fun _ => backend) levels depth around node =
      walkFrom program config backend levels depth node := by
  rw [Traversal.walkFrom_eq_visit]
  exact Traversal.visitAlong_const program config _ levels depth around node

end

/-- Steps of two backends that go together: from states that `B` relates, the first with `I`, to
states that `B` relates, the first with `J`, and to results that `Q` relates. -/
def Together {α γ : Type} (B : β → β' → Prop) (I J : β → Prop) (Q : α → γ → Prop)
    (x : StateT β Logged α) (y : StateT β' Logged γ) : Prop :=
  ∀ b b', I b → B b b' →
    Q (x b).value.1 (y b').value.1 ∧ B (x b).value.2 (y b').value.2 ∧ J (x b).value.2

/-- Families of backends without fragments that keep in step. `I` is what the way to an element
says about the first backend inside of this element. -/
structure KeepInStep (B : β → β' → Prop) (I : List (Element F (Node F)) → β → Prop)
    (Q : U → V → Prop) (X : List (Element F (Node F)) → Backend F β U)
    (Y : List (Element F (Node F)) → Backend F β' V) : Prop where
  uncached : ∀ around, (X around).cachesFragments = false ∧ (Y around).cachesFragments = false
  empty : ∀ around way, Together B (I way) (I way) Q (X around).empty (Y around).empty
  text : ∀ around way content,
    Together B (I way) (I way) Q ((X around).text content) ((Y around).text content)
  fallback : ∀ around way content,
    Together B (I way) (I way) Q ((X around).fallback content) ((Y around).fallback content)
  fragment : ∀ around way {us vs}, List.Forall₂ Q us vs →
    Together B (I way) (I way) Q ((X around).fragment us) ((Y around).fragment vs)
  enter : ∀ around e, Together B (I around) (I (e :: around)) (fun _ _ => True)
    ((X around).enter e) ((Y around).enter e)
  element : ∀ around e {us vs}, List.Forall₂ Q us vs →
    Together B (I (e :: around)) (I around) Q ((X around).element e us) ((Y around).element e vs)

def WalkState.InStep (B : β → β' → Prop) (s : WalkState σ β) (t : WalkState σ β') : Prop :=
  s.toScene = t.toScene ∧ B s.backend t.backend

section

variable {α γ : Type} {B : β → β' → Prop} {b : β}

theorem Together.tracks {I J : β → Prop} {Q : α → γ → Prop} {x : StateT β Logged α}
    {y : StateT β' Logged γ} (h : Together B I J Q x y) (hb : I b) :
    Walk.Tracks (WalkState.InStep (σ := σ) B) b (fun b₁ a c => Q a c ∧ J b₁) (Walk.onBackend x)
      (Walk.onBackend y) := by
  rintro s t rfl ⟨hscene, hbackend⟩
  obtain ⟨hq, hrelated, hj⟩ := h s.backend t.backend hb hbackend
  exact .ok ⟨hq, hj⟩ ⟨hscene, hrelated⟩

private theorem inStep_onScene (x : Calls σ α) :
    Walk.Tracks (WalkState.InStep (σ := σ) B) b (fun b₁ a c => b₁ = b ∧ a = c)
      (Walk.onScene x) (Walk.onScene x) := by
  rintro s t rfl ⟨hscene, hbackend⟩
  rw [Walk.exec_onScene, Walk.exec_onScene, hscene]
  exact .ok ⟨rfl, rfl⟩ ⟨rfl, hbackend⟩

private theorem inStep_walkEach {J : β → Prop} {Q : U → V → Prop} {f : Node F → Walk σ β U}
    {g : Node F → Walk σ β' V} (nodes : List (Node F))
    (h : ∀ n ∈ nodes, ∀ b, J b →
      Walk.Tracks (WalkState.InStep B) b (fun b₁ u v => Q u v ∧ J b₁) (f n) (g n)) (hb : J b) :
    Walk.Tracks (WalkState.InStep B) b (fun b₁ us vs => List.Forall₂ Q us vs ∧ J b₁)
      (walkEach f nodes) (walkEach g nodes) := by
  induction nodes generalizing b with
  | nil => exact .pure ⟨.nil, hb⟩
  | cons n rest ih =>
    apply Walk.Tracks.bind (h n (by simp) b hb)
    rintro b₁ u v ⟨hu, hb₁⟩
    apply Walk.Tracks.bind (ih (fun m hm => h m (by simp [hm])) hb₁)
    rintro b₂ us vs ⟨hus, hb₂⟩
    exact .pure ⟨.cons hu hus, hb₂⟩

end

namespace KeepInStep

variable {program : Program F σ} {config : Config} {B : β → β' → Prop}
  {I : List (Element F (Node F)) → β → Prop} {Q : U → V → Prop}
  {X : List (Element F (Node F)) → Backend F β U} {Y : List (Element F (Node F)) → Backend F β' V}
  (h : KeepInStep B I Q X Y)

include h

private theorem recover (around way : List (Element F (Node F))) (cause : CallError) {b : β}
    (hb : I way b) :
    Walk.Tracks (WalkState.InStep (σ := σ) B) b (fun b₁ u v => Q u v ∧ I way b₁)
      (TreeRender.recover config (X around) cause) (TreeRender.recover config (Y around) cause) :=
  .recover cause ((h.fallback around way _).tracks hb)

private theorem walkDirective (around way : List (Element F (Node F)))
    (directive : Option (Directive F))
    {b : β} (hb : I way b) :
    Walk.Tracks (WalkState.InStep B) b (fun b₁ us vs => List.Forall₂ Q us vs ∧ I way b₁)
      (TreeRender.walkDirective program config (X around) directive)
      (TreeRender.walkDirective program config (Y around) directive) :=
  .walkDirective directive ⟨.nil, hb⟩ (fun _ _ _ h => ⟨.cons h.1 .nil, h.2⟩)
    (fun _ => inStep_onScene _) (fun content => (h.text around way content).tracks hb)
    ((h.fallback around way _).tracks hb)

private theorem buildElement {f : Node F → Walk σ β U} {g : Node F → Walk σ β' V}
    (around : List (Element F (Node F))) (e : Element F (Node F))
    (hbelow : ∀ n b, I (e :: around) b →
      Walk.Tracks (WalkState.InStep B) b (fun b₁ u v => Q u v ∧ I (e :: around) b₁) (f n) (g n))
    {b : β} (hb : I around b) :
    Walk.Tracks (WalkState.InStep B) b (fun b₁ u v => Q u v ∧ I around b₁)
      (TreeRender.buildElement program config (X around) f e)
      (TreeRender.buildElement program config (Y around) g e) := by
  cases hvoid : Markup.isVoid e.tag with
  | true =>
    rw [buildElement_void hvoid, buildElement_void hvoid]
    apply Walk.Tracks.bind ((h.enter around e).tracks hb)
    rintro b₁ _ _ ⟨-, hb₁⟩
    exact .logged _ _ ((h.element around e .nil).tracks hb₁)
  | false =>
    rw [buildElement_content hvoid, buildElement_content hvoid]
    apply Walk.Tracks.bind ((h.enter around e).tracks hb)
    rintro b₁ _ _ ⟨-, hb₁⟩
    apply Walk.Tracks.bind (h.walkDirective around (e :: around) e.text hb₁)
    rintro b₂ us vs ⟨hdirective, hb₂⟩
    apply Walk.Tracks.bind (inStep_walkEach e.childNodes (fun n _ b hb => hbelow n b hb) hb₂)
    rintro b₃ us' vs' ⟨hchildren, hb₃⟩
    exact (h.element around e (List.rel_append hdirective hchildren)).tracks hb₃

private theorem walkElement {f : Node F → Walk σ β U} {g : Node F → Walk σ β' V} (depth : Nat)
    (around : List (Element F (Node F))) (e : Element F (Node F))
    (hbelow : ∀ n b, I (e :: around) b →
      Walk.Tracks (WalkState.InStep B) b (fun b₁ u v => Q u v ∧ I (e :: around) b₁) (f n) (g n))
    {b : β} (hb : I around b) :
    Walk.Tracks (WalkState.InStep B) b (fun b₁ u v => Q u v ∧ I around b₁)
      (TreeRender.walkElement program config (X around) f depth e)
      (TreeRender.walkElement program config (Y around) g depth e) := by
  obtain ⟨hX, hY⟩ := h.uncached around
  cases hvalid : Markup.isValidName e.tag with
  | false =>
    rw [walkElement_invalid hvalid, walkElement_invalid hvalid]
    exact .logged _ _ ((h.empty around around).tracks hb)
  | true =>
    rw [walkElement_uncached hvalid (by rw [hX]; rfl), walkElement_uncached hvalid (by rw [hY]; rfl)]
    exact (h.buildElement around e hbelow hb).counted _ fun _ _ hst =>
      ⟨congrArg Scene.countElement hst.1, hst.2⟩

variable (program config) in
theorem walkAlong (levels depth : Nat) (around : List (Element F (Node F))) (node : Node F) {b : β}
    (hb : I around b) :
    Walk.Tracks (WalkState.InStep B) b (fun b₁ u v => Q u v ∧ I around b₁)
      (TreeRender.walkAlong program config X levels depth around node)
      (TreeRender.walkAlong program config Y levels depth around node) := by
  unfold TreeRender.walkAlong
  induction levels generalizing depth around node b with
  | zero => exact .logged _ _ (.throw _)
  | succ levels ih =>
    simp only [Traversal.visitAlong]
    induction node using Node.inductOn generalizing b with
    | empty => exact (h.empty around around).tracks hb
    | text value => exact (h.text around around _).tracks hb
    | component c =>
      apply Walk.Tracks.bind (inStep_onScene _)
      rintro _ outcome _ ⟨rfl, rfl⟩
      cases outcome with
      | ok node => exact ih (depth + 1) around node hb
      | error e =>
        cases e with
        | failed cause => exact h.recover around around cause hb
        | depthExceeded depth maxDepth => exact .throw _
        | config cause => exact .throw _
    | collection nodes ihnodes =>
      simp only [Traversal.visitLevel, Traversal.visitMembers_eq]
      apply Walk.Tracks.bind (inStep_walkEach nodes (fun n hn b hb => ihnodes n hn hb) hb)
      rintro b₁ us vs ⟨hus, hb₁⟩
      exact (h.fragment around around hus).tracks hb₁
    | element e _ =>
      exact h.walkElement depth around e (fun n b hb => ih (depth + 1) (e :: around) n hb) hb

end KeepInStep

end TreeRender
