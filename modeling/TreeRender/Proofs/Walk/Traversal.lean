import TreeRender.Proofs.Walk.Tracking

/-!
# Traversals

The way a tree is gone through, apart from what is made of texts and elements. Rendering to units
and streaming are both traversals, so that two of them can be compared by comparing what they do at
one element: `Traversal.Simulates.visit` carries this to all trees, whatever the components return.
-/

namespace TreeRender

variable {F σ β β' U V : Type}

section

variable {program : Program F σ} {config : Config} {backend : Backend F β U}
  {below : Node F → Walk σ β U} {depth : Nat} {e : Element F (Node F)}

theorem walkElement_invalid (h : Markup.isValidName e.tag = false) :
    walkElement program config backend below depth e =
      (do liftM (reportTag e.tag); Walk.onBackend backend.empty) := by
  simp only [walkElement, h, Bool.not_false, if_true]

theorem walkElement_uncached (h : Markup.isValidName e.tag = true)
    (hc : (backend.cachesFragments && config.isCacheable e) = false) :
    walkElement program config backend below depth e =
      (do Walk.count Scene.countElement; buildElement program config backend below e) := by
  simp only [walkElement, h, hc, Bool.not_true, Bool.false_eq_true, if_false]

theorem walkElement_cached (h : Markup.isValidName e.tag = true)
    (hc : (backend.cachesFragments && config.isCacheable e) = true) :
    walkElement program config backend below depth e = (do
      Walk.count Scene.countElement
      match ← cachedUnit config backend depth e with
      | some unit =>
        Walk.count Scene.countHit
        return unit
      | none =>
        Walk.count Scene.countMiss
        let unit ← buildElement program config backend below e
        storeUnit backend e unit
        return unit) := by
  rw [walkElement, h, hc]
  rfl

theorem buildElement_void (h : Markup.isVoid e.tag = true) :
    buildElement program config backend below e = (do
      Walk.onBackend (backend.enter e)
      liftM (reportContent e)
      Walk.onBackend (backend.element e [])) := by
  simp only [buildElement, h, if_true]

theorem buildElement_content (h : Markup.isVoid e.tag = false) :
    buildElement program config backend below e = (do
      Walk.onBackend (backend.enter e)
      let directive ← walkDirective program config backend e.text
      let children ← walkEach below e.childNodes
      Walk.onBackend (backend.element e (directive ++ children))) := by
  simp only [buildElement, h, Bool.false_eq_true, if_false]

theorem walkMembers_eq (resolve : Node F → Calls σ (Node F)) (below : Node F → Walk σ β U)
    (depth : Nat) (nodes : List (Node F)) :
    walkMembers program config backend resolve below depth nodes =
      walkEach (walkLevel program config backend resolve below depth) nodes := by
  induction nodes with
  | nil => rfl
  | cons n rest ih => simp only [walkMembers, walkEach, ih]

end

/-- What is made of the parts of a tree. An element gets the visit of the nodes below it. -/
structure Traversal (F σ β U : Type) where
  empty : Walk σ β U
  text : String → Walk σ β U
  fragment : List U → Walk σ β U
  recover : CallError → Walk σ β U
  element : (below : Node F → Walk σ β U) → (levels depth : Nat) → Element F (Node F) → Walk σ β U

/-- Results one after the other, each related in the state that the one before has left. -/
inductive Chain (R : β → β → U → V → Prop) : β → β → List U → List V → Prop
  | nil {b} : Chain R b b [] []
  | cons {b b₁ b₂ u v us vs} : R b b₁ u v → Chain R b₁ b₂ us vs → Chain R b b₂ (u :: us) (v :: vs)

theorem Chain.append {R : β → β → U → V → Prop} {b b₁ b₂ : β} {us us' : List U} {vs vs' : List V}
    (h : Chain R b b₁ us vs) (h' : Chain R b₁ b₂ us' vs') :
    Chain R b b₂ (us ++ us') (vs ++ vs') := by
  induction h with
  | nil => exact h'
  | cons hr _ ih => exact .cons hr (ih h')

theorem Chain.singleton {R : β → β → U → V → Prop} {b b' : β} {u : U} {v : V} (h : R b b' u v) :
    Chain R b b' [u] [v] :=
  .cons h .nil

theorem tracks_walkEach {S : WalkState σ β → WalkState σ β' → Prop} {R : β → β → U → V → Prop}
    {f : Node F → Walk σ β U} {g : Node F → Walk σ β' V} (nodes : List (Node F))
    (h : ∀ n ∈ nodes, ∀ b, Walk.Tracks S b (R b) (f n) (g n)) (b : β) :
    Walk.Tracks S b (Chain R b) (walkEach f nodes) (walkEach g nodes) := by
  induction nodes generalizing b with
  | nil => exact .pure .nil
  | cons n rest ih =>
    apply Walk.Tracks.bind (h n (by simp) b)
    intro b₁ u v hu
    apply Walk.Tracks.bind (ih (fun m hm => h m (by simp [hm])) b₁)
    intro b₂ us vs hus
    exact .pure (.cons hu hus)

theorem walkEach_map {G : Type} (f : Node G → Walk σ β U) (g : Node F → Node G)
    (nodes : List (Node F)) : walkEach f (nodes.map g) = walkEach (fun n => f (g n)) nodes := by
  induction nodes with
  | nil => rfl
  | cons n rest ih => rw [List.map_cons, walkEach, walkEach, ih]

namespace Traversal

section

variable (program : Program F σ) (config : Config) (X : Traversal F σ β U)

mutual

def visitLevel (resolve : Node F → Calls σ (Node F)) (below : Node F → Walk σ β U)
    (levels depth : Nat) : Node F → Walk σ β U
  | .empty => X.empty
  | .text value => X.text value.text
  | .component c => do
    match ← Walk.onScene (invoke program config resolve depth c) with
    | .ok node => below node
    | .error (.failed cause) => X.recover cause
    | .error e => throw e
  | .collection nodes => do X.fragment (← visitMembers resolve below levels depth nodes)
  | .element e => X.element below levels depth e

def visitMembers (resolve : Node F → Calls σ (Node F)) (below : Node F → Walk σ β U)
    (levels depth : Nat) : List (Node F) → Walk σ β (List U)
  | [] => return []
  | n :: rest => return (← visitLevel resolve below levels depth n) ::
      (← visitMembers resolve below levels depth rest)

end

/-- Visits a node at `depth`, where the depth limit allows `levels` more levels. -/
def visit : (levels depth : Nat) → Node F → Walk σ β U
  | 0, depth, _ => do
    reportDepth
    throw (config.depthError depth)
  | levels + 1, depth, node =>
    X.visitLevel program config (resolveFrom program config levels (depth + 1))
      (visit levels (depth + 1)) levels depth node

theorem visitMembers_eq (resolve : Node F → Calls σ (Node F)) (below : Node F → Walk σ β U)
    (levels depth : Nat) (nodes : List (Node F)) :
    X.visitMembers program config resolve below levels depth nodes =
      walkEach (X.visitLevel program config resolve below levels depth) nodes := by
  induction nodes with
  | nil => rfl
  | cons n rest ih => simp only [visitMembers, walkEach, ih]

end

section

variable (program : Program F σ) (config : Config) (backend : Backend F β U)

/-- What a walk makes of the parts of a tree with a backend. -/
def ofBackend : Traversal F σ β U where
  empty := Walk.onBackend backend.empty
  text text := Walk.onBackend (backend.text text)
  fragment units := Walk.onBackend (backend.fragment units)
  recover := TreeRender.recover config backend
  element below _ depth e := walkElement program config backend below depth e

private theorem walkLevel_eq_visitLevel (resolve : Node F → Calls σ (Node F))
    (below : Node F → Walk σ β U)
    (levels depth : Nat) (node : Node F) :
    walkLevel program config backend resolve below depth node =
      (ofBackend program config backend).visitLevel program config resolve below levels depth
        node := by
  induction node using Node.inductOn with
  | empty => rfl
  | text value => rfl
  | component c => rfl
  | collection nodes ih =>
    have members : walkMembers program config backend resolve below depth nodes =
        (ofBackend program config backend).visitMembers program config resolve below levels depth
          nodes := by
      induction nodes with
      | nil => rfl
      | cons n rest ihrest =>
        simp only [walkMembers, visitMembers, ih n (by simp), ihrest fun m hm => ih m (by simp [hm])]
    simp only [walkLevel, visitLevel, members]
    rfl
  | element e _ => rfl

theorem walkFrom_eq_visit (levels depth : Nat) (node : Node F) :
    walkFrom program config backend levels depth node =
      (ofBackend program config backend).visit program config levels depth node := by
  induction levels generalizing depth node with
  | zero => rfl
  | succ levels ih =>
    have below : walkFrom program config backend levels (depth + 1) =
        (ofBackend program config backend).visit program config levels (depth + 1) :=
      funext (ih (depth + 1))
    rw [walkFrom, visit, below]
    exact walkLevel_eq_visitLevel program config backend _ _ levels depth node

end

/-- What `Y` does, `X` does alike: at a text, a failure or a collection, and at an element if it
does so below. -/
structure Simulates (program : Program F σ) (config : Config)
    (S : WalkState σ β → WalkState σ β' → Prop) (R : β → β → U → V → Prop)
    (X : Traversal F σ β U) (Y : Traversal F σ β' V) : Prop where
  calls : ∀ {α : Type} {x : Calls σ α}, x.Blind → ∀ b,
    Walk.Tracks S b (fun b' a c => b' = b ∧ a = c) (Walk.onScene x) (Walk.onScene x)
  empty : ∀ b, Walk.Tracks S b (R b) X.empty Y.empty
  text : ∀ text b, Walk.Tracks S b (R b) (X.text text) (Y.text text)
  fragment : ∀ {b us vs b₁}, Chain R b b₁ us vs →
    Walk.Tracks S b₁ (R b) (X.fragment us) (Y.fragment vs)
  recover : ∀ cause b, Walk.Tracks S b (R b) (X.recover cause) (Y.recover cause)
  element : ∀ levels depth, depth + levels = config.maxDepth →
    (∀ n b, Walk.Tracks S b (R b) (X.visit program config levels (depth + 1) n)
      (Y.visit program config levels (depth + 1) n)) →
    ∀ e b, Walk.Tracks S b (R b)
      (X.element (X.visit program config levels (depth + 1)) levels depth e)
      (Y.element (Y.visit program config levels (depth + 1)) levels depth e)

namespace Simulates

variable {program : Program F σ} {config : Config} {S : WalkState σ β → WalkState σ β' → Prop}
  {R : β → β → U → V → Prop} {X : Traversal F σ β U} {Y : Traversal F σ β' V}

private theorem visitLevel (h : Simulates program config S R X Y) {levels depth : Nat}
    (hdepth : depth + levels = config.maxDepth)
    (ih : ∀ n b, Walk.Tracks S b (R b) (X.visit program config levels (depth + 1) n)
      (Y.visit program config levels (depth + 1) n)) (node : Node F) (b : β) :
    Walk.Tracks S b (R b)
      (X.visitLevel program config (resolveFrom program config levels (depth + 1))
        (X.visit program config levels (depth + 1)) levels depth node)
      (Y.visitLevel program config (resolveFrom program config levels (depth + 1))
        (Y.visit program config levels (depth + 1)) levels depth node) := by
  induction node using Node.inductOn generalizing b with
  | empty => exact h.empty b
  | text value => exact h.text value.text b
  | component c =>
    have resolves := blind_resolveFrom program config levels (depth + 1)
    have blind := blind_invoke program config resolves depth c
    apply (h.calls blind b).bind
    rintro _ outcome _ ⟨rfl, rfl⟩
    cases outcome with
    | ok node => exact ih node _
    | error e =>
      cases e with
      | failed cause => exact h.recover cause _
      | depthExceeded depth maxDepth => exact .throw _
      | config cause => exact .throw _
  | collection nodes ihnodes =>
    simp only [Traversal.visitLevel, visitMembers_eq]
    exact (tracks_walkEach nodes ihnodes b).bind fun _ _ _ hchain => h.fragment hchain
  | element e _ => exact h.element levels depth hdepth ih e b

/-- Traversals that do alike at one element do alike on every tree. -/
theorem visit (h : Simulates program config S R X Y) {levels depth : Nat}
    (hdepth : depth + levels = config.maxDepth + 1) (node : Node F) (b : β) :
    Walk.Tracks S b (R b) (X.visit program config levels depth node)
      (Y.visit program config levels depth node) := by
  induction levels generalizing depth node b with
  | zero => exact .logged _ _ (.throw _)
  | succ levels ih =>
    exact h.visitLevel (by omega) (fun n b => ih (by omega) n b) node b

end Simulates

end Traversal

end TreeRender
