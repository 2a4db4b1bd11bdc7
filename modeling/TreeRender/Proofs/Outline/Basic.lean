import TreeRender.Proofs.Walk.Traversal

/-!
# Outlines

What a tree comes to once its components are called: texts, elements around content, and marks where
something failed, in document order. No output format is decided yet, so that the outline is what
markup, streams of markup and live nodes have in common.
-/

namespace TreeRender

variable {F σ : Type}

/-- A sequence of texts, marks of a failure and elements. An element stands with its source. -/
inductive Outline (F : Type) where
  | nil
  | text (content : String) (rest : Outline F)
  | fallback (rest : Outline F)
  | element (source : Element F (Node F)) (content rest : Outline F)

namespace Outline

protected def append : Outline F → Outline F → Outline F
  | .nil, o => o
  | .text content rest, o => .text content (rest.append o)
  | .fallback rest, o => .fallback (rest.append o)
  | .element source content rest, o => .element source content (rest.append o)

instance : Append (Outline F) := ⟨Outline.append⟩

@[simp] theorem nil_append (o : Outline F) : .nil ++ o = o := rfl

@[simp] theorem text_append (content : String) (rest o : Outline F) :
    .text content rest ++ o = .text content (rest ++ o) := rfl

@[simp] theorem fallback_append (rest o : Outline F) : .fallback rest ++ o = .fallback (rest ++ o) :=
  rfl

@[simp] theorem element_append (source : Element F (Node F)) (content rest o : Outline F) :
    .element source content rest ++ o = .element source content (rest ++ o) := rfl

@[simp] theorem append_nil (o : Outline F) : o ++ .nil = o := by
  induction o with
  | nil => rfl
  | text content rest ih => rw [text_append, ih]
  | fallback rest ih => rw [fallback_append, ih]
  | element source content rest _ ih => rw [element_append, ih]

theorem append_assoc (o₁ o₂ o₃ : Outline F) : o₁ ++ o₂ ++ o₃ = o₁ ++ (o₂ ++ o₃) := by
  induction o₁ with
  | nil => rfl
  | text content rest ih => simp only [text_append, ih]
  | fallback rest ih => simp only [fallback_append, ih]
  | element source content rest _ ih => simp only [element_append, ih]

def join : List (Outline F) → Outline F
  | [] => .nil
  | o :: rest => o ++ join rest

theorem join_append (os os' : List (Outline F)) : join (os ++ os') = join os ++ join os' := by
  induction os with
  | nil => rfl
  | cons o rest ih => simp only [List.cons_append, join, ih, append_assoc]

def backend : Backend F Unit (Outline F) where
  empty := return .nil
  text content := return .text content .nil
  fragment units := return join units
  element e content := return .element e (join content) .nil
  fallback _ := return .fallback .nil

end Outline

section

variable (program : Program F σ) (config : Config)

/-- The outline of a node at `depth`, where the depth limit allows `levels` more levels. -/
def outlineFrom (levels depth : Nat) (node : Node F) : Walk σ Unit (Outline F) :=
  walkFrom program config Outline.backend levels depth node

def outlineStart (state : σ) : WalkState σ Unit :=
  { state, clock := { reading := fun _ => 0 }, cache := FragmentCache.empty 0 none, backend := () }

/-- How outlining a complete tree ends, when the functions are in `state`. -/
def outlining (node : Node F) (state : σ) : Except RenderError (Outline F) × WalkState σ Unit :=
  (outlineFrom program config (config.levelsAt 1) 1 node).exec (outlineStart state)

end

section

variable (program : Program F σ) (config : Config)

theorem exec_outline_component (levels depth : Nat) (c : Component F) (t : WalkState σ Unit) :
    (outlineFrom program config (levels + 1) depth (.component c)).exec t =
      match (invoke program config (resolveFrom program config levels (depth + 1)) depth c).exec
        t.toScene with
      | (.ok node, u) =>
        (outlineFrom program config levels (depth + 1) node).exec { t with toScene := u }
      | (.error (.failed cause), u) =>
        (recover config Outline.backend cause).exec { t with toScene := u }
      | (.error e, u) => (.error e, { t with toScene := u }) := by
  unfold outlineFrom
  rw [walkFrom, walkLevel, Walk.exec_bind, Walk.exec_onScene]
  generalize (invoke program config (resolveFrom program config levels (depth + 1)) depth c).exec
    t.toScene = p
  obtain ⟨e | node, u⟩ := p
  · cases e <;> rfl
  · rfl

theorem outlineFrom_collection (levels depth : Nat) (nodes : List (Node F)) :
    outlineFrom program config (levels + 1) depth (.collection nodes) = (do
      let os ← walkEach (outlineFrom program config (levels + 1) depth) nodes
      Walk.onBackend (Outline.backend.fragment os)) := by
  have each : outlineFrom program config (levels + 1) depth =
      (Traversal.ofBackend program config Outline.backend).visit program config (levels + 1)
        depth :=
    funext (Traversal.walkFrom_eq_visit program config Outline.backend (levels + 1) depth)
  rw [each, Traversal.visit, Traversal.visitLevel, Traversal.visitMembers_eq]
  rfl

end

section

variable {program : Program F σ} {c d : Config} (h : c.EvaluatesLike program d)

include h

private theorem recover_outline_congr (cause : CallError) :
    recover (σ := σ) c (Outline.backend (F := F)) cause = recover d Outline.backend cause := by
  simp only [recover, h.throwOnError]
  rfl

private theorem walkElement_outline_congr (below : Node F → Walk σ Unit (Outline F)) (depth : Nat)
    (e : Element F (Node F)) : walkElement program c Outline.backend below depth e =
      walkElement program d Outline.backend below depth e := by
  have directive : walkDirective program c Outline.backend e.text =
      walkDirective program d Outline.backend e.text := by
    cases e.text with
    | none => rfl
    | some directive => simp only [walkDirective, recover_outline_congr h]
  cases hvalid : Markup.isValidName e.tag with
  | false => rw [walkElement_invalid hvalid, walkElement_invalid hvalid]
  | true =>
    rw [walkElement_uncached hvalid rfl, walkElement_uncached hvalid rfl]
    simp only [buildElement, directive]

private theorem walkLevel_outline_congr {resolve : Node F → Calls σ (Node F)}
    (below : Node F → Walk σ Unit (Outline F)) (depth : Nat) (node : Node F) :
    walkLevel program c Outline.backend resolve below depth node =
      walkLevel program d Outline.backend resolve below depth node := by
  induction node using Node.inductOn with
  | empty => rfl
  | text value => rfl
  | component comp => simp only [walkLevel, invoke_congr h, recover_outline_congr h]
  | collection nodes ih =>
    have members : walkMembers program c Outline.backend resolve below depth nodes =
        walkMembers program d Outline.backend resolve below depth nodes := by
      induction nodes with
      | nil => rfl
      | cons n rest ihrest =>
        simp only [walkMembers, ih n (by simp), ihrest fun m hm => ih m (by simp [hm])]
    simp only [walkLevel, members]
  | element e _ => exact walkElement_outline_congr h below depth e

private theorem outlineFrom_congr (levels depth : Nat) (node : Node F) :
    outlineFrom program c levels depth node = outlineFrom program d levels depth node := by
  unfold outlineFrom
  induction levels generalizing depth node with
  | zero => simp only [walkFrom, Config.depthError, h.maxDepth]
  | succ levels ih =>
    have below : walkFrom program c Outline.backend levels (depth + 1) =
        walkFrom program d Outline.backend levels (depth + 1) := funext (ih (depth + 1))
    simp only [walkFrom, resolveFrom_congr h, below]
    exact walkLevel_outline_congr h _ depth node

theorem outlining_congr (node : Node F) (state : σ) :
    outlining program c node state = outlining program d node state := by
  unfold outlining Config.levelsAt
  rw [h.maxDepth, outlineFrom_congr h]

end

end TreeRender
