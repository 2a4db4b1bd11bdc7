import TreeRender.Proofs.Termination.Evaluation
import TreeRender.Proofs.Walk.Traversal

/-!
# Walks end

The walk of a tree as a plain recursion that only compares depths with the limit, like evaluation
before. Finitely many rounds of it settle how a walk ends, for every backend and every cache.
-/

namespace TreeRender

variable {F σ β U α γ R : Type}

theorem Eventually.walk_bind {round : R → R} {x : R → Walk σ β α} {y : Walk σ β α}
    {f : R → α → Walk σ β γ} {g : α → Walk σ β γ} {s : WalkState σ β}
    (hx : Eventually round fun r => (x r).exec s = y.exec s)
    (hf : ∀ a t, y.exec s = (.ok a, t) → Eventually round fun r => (f r a).exec t = (g a).exec t) :
    Eventually round fun r => (x r >>= f r).exec s = (y >>= g).exec s := by
  cases hy : y.exec s with
  | mk result t =>
    rw [hy] at hx
    cases result with
    | error e =>
      apply hx.mono
      intro r hxr
      rw [Walk.exec_bind_error _ hxr, Walk.exec_bind_error _ hy]
    | ok a =>
      apply (hx.and (hf a t hy)).mono
      rintro r ⟨hxr, hfr⟩
      rw [Walk.exec_bind_ok _ hxr, Walk.exec_bind_ok _ hy, hfr]

section

variable (program : Program F σ) (config : Config) (backend : Backend F β U)

/-- What is done with a node that the depth limit allows. -/
def walkNode (w : Nat → Node F → Walk σ β U) (depth : Nat) : Node F → Walk σ β U
  | .empty => Walk.onBackend backend.empty
  | .text value => Walk.onBackend (backend.text value.text)
  | .component c => do
    match ← Walk.onScene (evaluate program config depth c) with
    | .ok (node, last) => w (last + 1) node
    | .error (.failed cause) => recover config backend cause
    | .error e => throw e
  | .collection nodes => do Walk.onBackend (backend.fragment (← walkEach (w depth) nodes))
  | .element e => walkElement program config backend (w (depth + 1)) depth e

def walkRound (w : Nat → Node F → Walk σ β U) (depth : Nat) (node : Node F) : Walk σ β U := do
  match ← config.guardDepth depth with
  | .error e => throw e
  | .ok () => walkNode program config backend w depth node

end

section

variable {program : Program F σ} {config : Config} {backend : Backend F β U}

private theorem exec_walkRound (w : Nat → Node F → Walk σ β U) (depth : Nat) (node : Node F)
    (s : WalkState σ β) : (walkRound program config backend w depth node).exec s =
      if config.maxDepth < depth then (.error (config.depthError depth), s)
      else (walkNode program config backend w depth node).exec s := by
  unfold walkRound
  rw [Walk.exec_bind, Walk.exec_logged, Config.value_guardDepth]
  by_cases hdeep : config.maxDepth < depth
  · simp only [if_pos hdeep, Walk.exec_throw]
  · simp only [if_neg hdeep]

private theorem walk_eq_walkLevel {depth : Nat} (h : depth ≤ config.maxDepth) (node : Node F) :
    walk program config backend depth node =
      walkLevel program config backend ((evaluator program config).resolve (depth + 1))
        (walk program config backend (depth + 1)) depth node := by
  unfold walk
  simp only [Config.levelsAt_succ h, walkFrom, evaluator]

private theorem exec_walk_tooDeep {depth : Nat} (h : config.maxDepth < depth) (node : Node F)
    (s : WalkState σ β) :
    (walk program config backend depth node).exec s = (.error (config.depthError depth), s) := by
  unfold walk
  rw [Config.levelsAt_eq_zero h]
  rfl

private theorem exec_walk_component {depth : Nat} (h : depth ≤ config.maxDepth) (c : Component F)
    (s : WalkState σ β) : (walk program config backend depth (.component c)).exec s =
      match (evaluate program config depth c).exec s.toScene with
      | (.ok (node, last), t) =>
        (walk program config backend (last + 1) node).exec { s with toScene := t }
      | (.error (.failed cause), t) => (recover config backend cause).exec { s with toScene := t }
      | (.error e, t) => (.error e, { s with toScene := t }) := by
  rw [walk_eq_walkLevel h, walkLevel, Walk.exec_bind, Walk.exec_onScene, exec_evaluate]
  generalize (invoke program config ((evaluator program config).resolve (depth + 1)) depth
    c).exec s.toScene = p
  obtain ⟨e | result, t⟩ := p
  · cases e <;> rfl
  · cases result with
    | component next =>
      by_cases hlast : config.maxDepth < depth + 1
      · simp only [if_pos hlast]
        exact exec_walk_tooDeep hlast _ _
      · simp only [if_neg hlast]
        exact exec_walk_component (Nat.not_lt.1 hlast) next _
    | _ => rfl
termination_by config.maxDepth - depth

private theorem exec_walkRound_walk (depth : Nat) (node : Node F) (s : WalkState σ β) :
    (walkRound program config backend (walk program config backend) depth node).exec s =
      (walk program config backend depth node).exec s := by
  rw [exec_walkRound]
  by_cases hdeep : config.maxDepth < depth
  · rw [if_pos hdeep, exec_walk_tooDeep hdeep]
  rw [if_neg hdeep]
  have hdepth := Nat.not_lt.1 hdeep
  cases node with
  | component c =>
    rw [exec_walk_component hdepth, walkNode, Walk.exec_bind, Walk.exec_onScene]
    generalize (evaluate program config depth c).exec s.toScene = p
    obtain ⟨e | ⟨node, last⟩, t⟩ := p
    · cases e <;> rfl
    · rfl
  | collection nodes =>
    have hlevel : walk program config backend depth = walkLevel program config backend
        ((evaluator program config).resolve (depth + 1)) (walk program config backend (depth + 1))
        depth := funext (walk_eq_walkLevel hdepth)
    rw [walk_eq_walkLevel hdepth, walkLevel, walkMembers_eq, ← hlevel]
    rfl
  | _ =>
    rw [walk_eq_walkLevel hdepth]
    rfl

private theorem eventually_walkEach {round : R → R} {f : R → Node F → Walk σ β U}
    {g : Node F → Walk σ β U} (nodes : List (Node F))
    (h : ∀ n ∈ nodes, ∀ s, Eventually round fun r => (f r n).exec s = (g n).exec s)
    (s : WalkState σ β) :
    Eventually round fun r => (walkEach (f r) nodes).exec s = (walkEach g nodes).exec s := by
  induction nodes generalizing s with
  | nil => exact .always fun _ => rfl
  | cons n rest ih =>
    apply Eventually.walk_bind (h n (by simp) s)
    intro _ t _
    apply Eventually.walk_bind (ih (fun m hm => h m (by simp [hm])) t)
    exact fun _ _ _ => .always fun _ => rfl

section

variable {round : R → R} {f : R → Node F → Walk σ β U} {g : Node F → Walk σ β U}
  (h : ∀ n s, Eventually round fun r => (f r n).exec s = (g n).exec s)

include h

private theorem eventually_buildElement (e : Element F (Node F)) (s : WalkState σ β) :
    Eventually round fun r => (buildElement program config backend (f r) e).exec s =
      (buildElement program config backend g e).exec s := by
  cases hvoid : Markup.isVoid e.tag with
  | true =>
    simp only [buildElement_void hvoid]
    exact .always fun _ => trivial
  | false =>
    simp only [buildElement_content hvoid]
    apply Eventually.walk_bind (.always fun _ => rfl)
    intro _ t _
    apply Eventually.walk_bind (.always fun _ => rfl)
    intro _ t _
    apply Eventually.walk_bind (eventually_walkEach e.childNodes (fun n _ => h n) t)
    exact fun _ _ _ => .always fun _ => rfl

private theorem eventually_walkElement (depth : Nat) (e : Element F (Node F)) (s : WalkState σ β) :
    Eventually round fun r => (walkElement program config backend (f r) depth e).exec s =
      (walkElement program config backend g depth e).exec s := by
  cases hvalid : Markup.isValidName e.tag with
  | false =>
    simp only [walkElement_invalid hvalid]
    exact .always fun _ => trivial
  | true =>
    cases hcached : backend.cachesFragments && config.isCacheable e with
    | false =>
      simp only [walkElement_uncached hvalid hcached]
      apply Eventually.walk_bind (.always fun _ => rfl)
      exact fun _ t _ => eventually_buildElement h e t
    | true =>
      simp only [walkElement_cached hvalid hcached]
      apply Eventually.walk_bind (.always fun _ => rfl)
      intro _ t _
      apply Eventually.walk_bind (.always fun _ => rfl)
      rintro (_ | unit) t _
      · apply Eventually.walk_bind (.always fun _ => rfl)
        intro _ t _
        apply Eventually.walk_bind (eventually_buildElement h e t)
        exact fun _ _ _ => .always fun _ => rfl
      · exact .always fun _ => rfl

end

private theorem settles_of_walkNode {depth : Nat} {node : Node F}
    (h : ¬config.maxDepth < depth → ∀ s, Eventually (walkRound program config backend) fun w =>
      (walkNode program config backend w depth node).exec s =
        (walkNode program config backend (walk program config backend) depth node).exec s)
    (s : WalkState σ β) : Eventually (walkRound program config backend) fun w =>
      (w depth node).exec s = (walk program config backend depth node).exec s := by
  apply Eventually.again
  simp only [← exec_walkRound_walk depth node s, exec_walkRound]
  by_cases hdeep : config.maxDepth < depth
  · simp only [if_pos hdeep]
    exact .always fun _ => trivial
  · simp only [if_neg hdeep]
    exact h hdeep s

/-- Finitely many rounds settle how the walk of a node ends, whatever the functions do. -/
theorem walk_settles (depth : Nat) (node : Node F) (s : WalkState σ β) :
    Eventually (walkRound program config backend) fun w =>
      (w depth node).exec s = (walk program config backend depth node).exec s := by
  induction node using Node.inductOn generalizing s with
  | empty => exact settles_of_walkNode (fun _ _ => .always fun _ => rfl) s
  | text value => exact settles_of_walkNode (fun _ _ => .always fun _ => rfl) s
  | component c =>
    apply settles_of_walkNode
    intro hdepth s
    apply Eventually.walk_bind (.always fun _ => rfl)
    rintro (e | ⟨node, last⟩) t hevaluated
    · apply Eventually.always
      intro _
      cases e <;> rfl
    · rw [Walk.exec_onScene, Prod.mk.injEq, Except.ok.injEq] at hevaluated
      have hlast : depth ≤ last := le_of_evaluate (Prod.ext hevaluated.1 rfl)
      exact walk_settles (last + 1) node t
  | collection nodes ih =>
    apply settles_of_walkNode
    intro _ s
    apply Eventually.walk_bind (eventually_walkEach nodes ih s)
    exact fun _ _ _ => .always fun _ => rfl
  | element e _ =>
    apply settles_of_walkNode
    intro hdepth s
    exact eventually_walkElement (walk_settles (depth + 1)) depth e s
termination_by config.maxDepth + 1 - depth

end

end TreeRender
