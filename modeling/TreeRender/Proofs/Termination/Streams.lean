import TreeRender.Proofs.Renderer.History
import TreeRender.Proofs.Termination.Walks

/-!
# Pulls end

A pull as a loop over a stack of nodes and closing tags. A round takes one frame off the stack, which
may put others on it: the stack grows while the depth limit is out of reach. Finitely many rounds
settle what a pull gives, whatever the functions do.
-/

namespace TreeRender

open Markup

variable {F σ R : Type}

namespace MarkupStream

/-- Something that a stream has to do: to go through a node, or to write a closing tag. -/
inductive Frame (F : Type) where
  | node (depth : Nat) (node : Node F)
  | close (tag : String)

abbrev Loop (F σ : Type) :=
  List (Frame F) → MarkupStream F σ → Logged (Option Item × MarkupStream F σ)

section

variable (program : Program F σ) (config : Config)

def stackPlan : List (Frame F) → Plan F σ
  | [] => .done
  | .node depth node :: stack =>
    planFrom program config (config.levelsAt depth) depth node (stackPlan stack)
  | .close tag :: stack => .write false (return closeTag tag) (stackPlan stack)

/-- Writes a piece, and goes on with a stack unless a chunk is cut. -/
def writeThen (again : Loop F σ) (opens : Bool) (piece : Walk σ (Registry F) String)
    (stack : List (Frame F)) (s : MarkupStream F σ) :
    Logged (Option Item × MarkupStream F σ) := do
  let (result, walk) ← piece.run.run s.walk
  let s := { s with walk, plan := stackPlan program config stack }
  match result with
  | .error e => return (some (.error e), s.finish)
  | .ok text =>
    match s.push opens text with
    | (some chunk, s) => return (some (.ok chunk), s)
    | (none, s) => again stack s

def evaluateThen (again : Loop F σ) (depth : Nat) (c : Component F) (stack : List (Frame F))
    (s : MarkupStream F σ) : Logged (Option Item × MarkupStream F σ) := do
  let (result, scene) ← (evaluate program config depth c).run s.walk.toScene
  let s := { s with walk.toScene := scene }
  match result with
  | .ok (node, last) => again (.node (last + 1) node :: stack) s
  | .error (.failed cause) =>
    let config' := s.engine.config
    writeThen program config again false
      (recover config' (backend config'.enableHydration) cause) stack s
  | .error e => return (some (.error e), s.finish)

def openThen (again : Loop F σ) (depth : Nat) (e : Element F (Node F)) (stack : List (Frame F))
    (s : MarkupStream F σ) : Logged (Option Item × MarkupStream F σ) :=
  if config.isCacheable e then
    writeThen program config again true
      (pieceOf program config (config.levelsAt depth) depth (.element e)) stack s
  else if !isValidName e.tag then
    writeThen program config again false (do reportTag e.tag; return "") stack s
  else if isVoid e.tag then
    writeThen program config again true (opening program config e) stack s
  else
    writeThen program config again true (opening program config e)
      (e.childNodes.map (.node (depth + 1)) ++ .close e.tag :: stack) s

/-- What is done with a node that the depth limit allows. -/
def nodeThen (again : Loop F σ) (depth : Nat) (stack : List (Frame F)) (s : MarkupStream F σ) :
    Node F → Logged (Option Item × MarkupStream F σ)
  | .empty => again stack s
  | .text value => writeThen program config again false (return escape value.text) stack s
  | .component c => evaluateThen program config again depth c stack s
  | .collection nodes => again (nodes.map (.node depth) ++ stack) s
  | .element e => openThen program config again depth e stack s

def loopRound (again : Loop F σ) : Loop F σ
  | [], s => pullFrom .done s
  | .close tag :: stack, s => writeThen program config again false (return closeTag tag) stack s
  | .node depth node :: stack, s => do
    match ← config.guardDepth depth with
    | .error e => return (some (.error e), s.finish)
    | .ok () => nodeThen program config again depth stack s node

end

section

variable {program : Program F σ} {config : Config}

private theorem stackPlan_nodes (depth : Nat) (nodes : List (Node F)) (stack : List (Frame F)) :
    stackPlan program config (nodes.map (.node depth) ++ stack) =
      planEach (planFrom program config (config.levelsAt depth) depth) nodes
        (stackPlan program config stack) := by
  induction nodes with
  | nil => rfl
  | cons n rest ih => rw [List.map_cons, List.cons_append, stackPlan, ih, planEach]

private theorem stackPlan_node {depth : Nat} (h : depth ≤ config.maxDepth) (node : Node F)
    (stack : List (Frame F)) :
    stackPlan program config (.node depth node :: stack) =
      planLevel program config
        (planFrom program config (config.levelsAt (depth + 1)) (depth + 1))
        (config.levelsAt (depth + 1)) depth node (stackPlan program config stack) := by
  rw [stackPlan, Config.levelsAt_succ h, planFrom]

private theorem pullFrom_tooDeep {depth : Nat} (h : config.maxDepth < depth) (node : Node F)
    (rest : Plan F σ) (s : MarkupStream F σ) :
    (pullFrom (planFrom program config (config.levelsAt depth) depth node rest) s).value =
      (some (.error (config.depthError depth)), s.finish) := by
  rw [Config.levelsAt_eq_zero h, planFrom]
  exact pullFrom_write_error rfl

private theorem pullFrom_component {depth : Nat} (h : depth ≤ config.maxDepth) (c : Component F)
    (rest : Plan F σ) (s : MarkupStream F σ) :
    (pullFrom (planFrom program config (config.levelsAt depth) depth (.component c) rest) s).value =
      match (evaluate program config depth c).exec s.walk.toScene with
      | (.ok (node, last), t) =>
        (pullFrom (planFrom program config (config.levelsAt (last + 1)) (last + 1) node rest)
          { s with walk.toScene := t }).value
      | (.error (.failed cause), t) =>
        (pullFrom (.write false (recover s.engine.config
          (backend s.engine.config.enableHydration) cause) rest) { s with walk.toScene := t }).value
      | (.error e, t) => (some (.error e), { s with walk.toScene := t }.finish) := by
  rw [exec_evaluate, Config.levelsAt_succ h, planFrom, planLevel]
  cases hcall : (invoke program config ((evaluator program config).resolve (depth + 1)) depth
      c).exec s.walk.toScene with
  | mk result t =>
    cases result with
    | error e =>
      cases e with
      | failed cause => exact pullFrom_call_failed hcall
      | depthExceeded d m => exact pullFrom_call_error hcall (by rintro _ ⟨⟩)
      | config cause => exact pullFrom_call_error hcall (by rintro _ ⟨⟩)
    | ok node =>
      refine (pullFrom_call_ok hcall).trans ?_
      cases node with
      | component next =>
        by_cases hlast : config.maxDepth < depth + 1
        · simp only [if_pos hlast]
          exact pullFrom_tooDeep hlast _ _ _
        · simp only [if_neg hlast]
          exact pullFrom_component (Nat.not_lt.1 hlast) next rest _
      | _ => rfl
termination_by config.maxDepth - depth

/-- Finitely many rounds settle what a pull gives, and it leaves the plan of some stack. -/
def StackSettles (program : Program F σ) (config : Config) (stack : List (Frame F)) : Prop :=
  ∀ s, (Eventually (loopRound program config) fun again =>
    (again stack s).value = (pullFrom (stackPlan program config stack) s).value) ∧
    ∃ left, (pullFrom (stackPlan program config stack) s).value.2.plan =
      stackPlan program config left

def StepSettles (program : Program F σ) (config : Config)
    (x : Loop F σ → Logged (Option Item × MarkupStream F σ))
    (y : Option Item × MarkupStream F σ) : Prop :=
  (Eventually (loopRound program config) fun again => (x again).value = y) ∧
    ∃ left, y.2.plan = stackPlan program config left

theorem stepSettles_write {stack : List (Frame F)} (h : StackSettles program config stack)
    (opens : Bool) (piece : Walk σ (Registry F) String) (s : MarkupStream F σ) :
    StepSettles program config (fun again => writeThen program config again opens piece stack s)
      (pullFrom (.write opens piece (stackPlan program config stack)) s).value := by
  have hvalue (again : Loop F σ) : (writeThen program config again opens piece stack s).value =
      match (piece.exec s.walk) with
      | (.error e, walk) =>
        (some (.error e), { s with walk, plan := stackPlan program config stack }.finish)
      | (.ok text, walk) =>
        match { s with walk, plan := stackPlan program config stack }.push opens text with
        | (some chunk, s) => (some (.ok chunk), s)
        | (none, s) => (again stack s).value := by
    unfold writeThen Walk.exec
    simp only [Logged.value_bind]
    generalize (piece.run.run s.walk).value = p
    obtain ⟨e | text, walk⟩ := p
    · rfl
    · simp only
      generalize { s with walk, plan := stackPlan program config stack }.push opens text = pushed
      obtain ⟨_ | chunk, t⟩ := pushed <;> rfl
  unfold StepSettles
  simp only [hvalue]
  cases hp : piece.exec s.walk with
  | mk result walk =>
    cases result with
    | error e =>
      rw [pullFrom_write_error hp]
      exact ⟨.always fun _ => rfl, [], rfl⟩
    | ok text =>
      rw [pullFrom_write_ok hp]
      have hplan : ({ s with walk, plan := stackPlan program config stack }.push opens
          text).2.plan = stackPlan program config stack := by
        rw [push_eq]
        split <;> rfl
      simp only
      generalize { s with walk, plan := stackPlan program config stack }.push opens text = pushed
        at hplan ⊢
      obtain ⟨_ | chunk, t⟩ := pushed
      · exact h t
      · exact ⟨.always fun _ => rfl, stack, hplan⟩

private theorem value_evaluateThen (again : Loop F σ) (depth : Nat) (c : Component F)
    (stack : List (Frame F)) (s : MarkupStream F σ) :
    (evaluateThen program config again depth c stack s).value =
      match (evaluate program config depth c).exec s.walk.toScene with
      | (.ok (node, last), t) =>
        (again (.node (last + 1) node :: stack) { s with walk.toScene := t }).value
      | (.error (.failed cause), t) =>
        (writeThen program config again false
          (recover s.engine.config (backend s.engine.config.enableHydration) cause) stack
          { s with walk.toScene := t }).value
      | (.error e, t) => (some (.error e), { s with walk.toScene := t }.finish) := by
  unfold evaluateThen Calls.exec
  simp only [Logged.value_bind]
  generalize ((evaluate program config depth c).run s.walk.toScene).value = p
  obtain ⟨e | ⟨node, last⟩, t⟩ := p
  · cases e <;> rfl
  · rfl

theorem stackSettles_of_round {stack : List (Frame F)}
    (h : ∀ s, StepSettles program config (fun again => loopRound program config again stack s)
      (pullFrom (stackPlan program config stack) s).value) :
    StackSettles program config stack :=
  fun s => ⟨.again (h s).1, (h s).2⟩

private theorem stackSettles_nil : StackSettles program config [] :=
  stackSettles_of_round fun _ => ⟨.always fun _ => rfl, [], rfl⟩

private theorem stackSettles_close {stack : List (Frame F)} (h : StackSettles program config stack)
    (tag : String) : StackSettles program config (.close tag :: stack) :=
  stackSettles_of_round fun s => stepSettles_write h false _ s

private theorem stackSettles_nodes {depth : Nat} (nodes : List (Node F))
    (h : ∀ n ∈ nodes, ∀ stack, StackSettles program config stack →
      StackSettles program config (.node depth n :: stack))
    {stack : List (Frame F)} (hstack : StackSettles program config stack) :
    StackSettles program config (nodes.map (.node depth) ++ stack) := by
  induction nodes with
  | nil => exact hstack
  | cons n rest ih => exact h n (by simp) _ (ih fun m hm => h m (by simp [hm]))

private theorem stackSettles_of_node {depth : Nat} {node : Node F} {stack : List (Frame F)}
    (h : ¬config.maxDepth < depth → ∀ s,
      StepSettles program config (fun again => nodeThen program config again depth stack s node)
        (pullFrom (stackPlan program config (.node depth node :: stack)) s).value) :
    StackSettles program config (.node depth node :: stack) := by
  apply stackSettles_of_round
  intro s
  unfold StepSettles
  simp only [loopRound, Logged.value_bind, Config.value_guardDepth]
  by_cases hdeep : config.maxDepth < depth
  · have hpull : (pullFrom (stackPlan program config (.node depth node :: stack)) s).value =
        (some (.error (config.depthError depth)), s.finish) := pullFrom_tooDeep hdeep node _ s
    simp only [if_pos hdeep, hpull]
    exact ⟨.always fun _ => rfl, [], rfl⟩
  · simp only [if_neg hdeep]
    exact h hdeep s

private theorem stackSettles_element {depth : Nat} (h : depth ≤ config.maxDepth)
    (hbelow : ∀ n stack, StackSettles program config stack →
      StackSettles program config (.node (depth + 1) n :: stack))
    (e : Element F (Node F)) {stack : List (Frame F)} (hstack : StackSettles program config stack)
    (s : MarkupStream F σ) :
    StepSettles program config (fun again => openThen program config again depth e stack s)
      (pullFrom (stackPlan program config (.node depth (.element e) :: stack)) s).value := by
  rw [stackPlan_node h, planLevel, planElement, ← Config.levelsAt_succ h]
  unfold openThen
  by_cases hcacheable : config.isCacheable e = true
  · simp only [if_pos hcacheable]
    exact stepSettles_write hstack true _ s
  simp only [if_neg hcacheable]
  by_cases hvalid : (!isValidName e.tag) = true
  · simp only [if_pos hvalid]
    exact stepSettles_write hstack false _ s
  simp only [if_neg hvalid]
  by_cases hvoid : isVoid e.tag = true
  · simp only [if_pos hvoid]
    exact stepSettles_write hstack true _ s
  simp only [if_neg hvoid]
  have hcontent : StackSettles program config
      (e.childNodes.map (.node (depth + 1)) ++ .close e.tag :: stack) :=
    stackSettles_nodes e.childNodes (fun n _ _ => hbelow n _) (stackSettles_close hstack e.tag)
  have hwrite := stepSettles_write hcontent true (opening program config e) s
  rw [stackPlan_nodes] at hwrite
  exact hwrite

private theorem stackSettles_node (depth : Nat) (node : Node F) {stack : List (Frame F)}
    (h : StackSettles program config stack) :
    StackSettles program config (.node depth node :: stack) := by
  -- Members of a collection stay at this depth, so at one depth the induction is on the node. What
  -- a component or an element puts on the stack lies deeper, where the theorem is used again.
  induction node using Node.inductOn generalizing stack with
  | empty =>
    apply stackSettles_of_node
    intro hdepth s
    rw [stackPlan_node (Nat.not_lt.1 hdepth)]
    exact h s
  | text value =>
    apply stackSettles_of_node
    intro hdepth s
    rw [stackPlan_node (Nat.not_lt.1 hdepth)]
    exact stepSettles_write h false _ s
  | component c =>
    apply stackSettles_of_node
    intro hdepth s
    rw [stackPlan, pullFrom_component (Nat.not_lt.1 hdepth)]
    unfold StepSettles
    simp only [nodeThen, value_evaluateThen]
    cases hevaluated : (evaluate program config depth c).exec s.walk.toScene with
    | mk result t =>
      cases result with
      | ok evaluated =>
        have hlast : depth ≤ evaluated.2 := le_of_evaluate hevaluated
        exact stackSettles_node (evaluated.2 + 1) evaluated.1 h _
      | error e =>
        cases e with
        | failed cause => exact stepSettles_write h false _ _
        | _ => exact ⟨.always fun _ => rfl, [], rfl⟩
  | collection nodes ih =>
    apply stackSettles_of_node
    intro hdepth s
    have hlevel : planFrom program config (config.levelsAt depth) depth = planLevel program config
        (planFrom program config (config.levelsAt (depth + 1)) (depth + 1))
        (config.levelsAt (depth + 1)) depth := by
      rw [Config.levelsAt_succ (Nat.not_lt.1 hdepth)]
      rfl
    have hmembers := stackSettles_nodes nodes (fun n hn _ => ih n hn) h s
    rw [stackPlan_nodes, hlevel, ← planMembers_eq] at hmembers
    rw [stackPlan_node (Nat.not_lt.1 hdepth), planLevel]
    exact hmembers
  | element e _ =>
    apply stackSettles_of_node
    intro hdepth s
    have hdepth' := Nat.not_lt.1 hdepth
    exact stackSettles_element hdepth' (fun n _ => stackSettles_node (depth + 1) n) e h s
termination_by config.maxDepth + 1 - depth

private theorem stackSettles (stack : List (Frame F)) : StackSettles program config stack := by
  induction stack with
  | nil => exact stackSettles_nil
  | cons frame stack ih =>
    cases frame with
    | node depth node => exact stackSettles_node depth node ih
    | close tag => exact stackSettles_close ih tag

end

/-- However often a stream of a tree was pulled, it has the plan of a stack left, and finitely many
rounds of the loop settle what the next pull gives. -/
theorem Pulled.settles {r : MarkupRenderer F} {program : Program F σ} {node : Node F}
    {world : World σ} {s : MarkupStream F σ} (h : (MarkupStream.new r program node world).Pulled s) :
    ∃ stack, s.plan = stackPlan program r.engine.config stack ∧
      (s.finished = false → Eventually (loopRound program r.engine.config) fun again =>
        (again stack s).value = s.next.value) := by
  have settles {s : MarkupStream F σ} {stack : List (Frame F)}
      (hplan : s.plan = stackPlan program r.engine.config stack) (hunfinished : s.finished = false) :
      s.next.value = (pullFrom (stackPlan program r.engine.config stack) s).value := by
    rw [next, hunfinished, ← hplan]
    rfl
  induction h with
  | start =>
    have hplan : (MarkupStream.new r program node world).plan =
        stackPlan program r.engine.config [.node 1 node] := rfl
    refine ⟨_, hplan, fun hunfinished => ?_⟩
    rw [settles hplan hunfinished]
    exact (stackSettles _ _).1
  | pull _ ih =>
    rename_i t _
    obtain ⟨stack, hplan, -⟩ := ih
    cases hfinished : t.finished with
    | true =>
      have hsame : t.next.value.2 = t := by
        rw [next, hfinished]
        rfl
      rw [hsame]
      exact ⟨stack, hplan, fun hunfinished => by rw [hfinished] at hunfinished; cases hunfinished⟩
    | false =>
      obtain ⟨left, hleft⟩ : ∃ left, (pullFrom (stackPlan program r.engine.config stack)
          t).value.2.plan = stackPlan program r.engine.config left := (stackSettles stack t).2
      rw [← settles hplan hfinished] at hleft
      refine ⟨left, hleft, fun hunfinished => ?_⟩
      rw [settles hleft hunfinished]
      exact (stackSettles _ _).1

end MarkupStream

end TreeRender
