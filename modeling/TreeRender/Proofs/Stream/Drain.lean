import TreeRender.Markup.Plan
import TreeRender.Proofs.Markup.Render

/-!
# Plans as walks

Taking all steps of a plan one after the other is a walk of its own, which gives the markup written
by the steps. For the plan of a tree it is the traversal `Markup.streamed`, which writes an opening
tag before it goes into the content.
-/

namespace TreeRender.Markup

variable {F σ : Type}

def Plan.drain (config : Config) : Plan F σ → Walk σ (Registry F) String
  | .done => return ""
  | .write _ piece rest => do
    let text ← piece
    let more ← rest.drain config
    return text ++ more
  | .call component resume rest => do
    match ← Walk.onScene component with
    | .ok node => (resume node).drain config
    | .error (.failed cause) =>
      let text ← recover config (backend config.enableHydration) cause
      let more ← rest.drain config
      return text ++ more
    | .error e => throw e

section

variable (program : Program F σ) (config : Config)

def streamed : Traversal F σ (Registry F) String where
  empty := return ""
  text text := return escape text
  fragment units := return String.join units
  recover := TreeRender.recover config (backend config.enableHydration)
  element below levels depth e :=
    if config.isCacheable e then pieceOf program config (levels + 1) depth (.element e)
    else if !isValidName e.tag then do
      reportTag e.tag
      return ""
    else if isVoid e.tag then opening program config e
    else do
      let tag ← opening program config e
      let children ← walkEach below e.childNodes
      return tag ++ String.join children ++ closeTag e.tag

def followedBy (x : Walk σ (Registry F) String) (rest : Plan F σ) : Walk σ (Registry F) String := do
  let text ← x
  let more ← rest.drain config
  return text ++ more

variable {program config}

private theorem followedBy_pure (rest : Plan F σ) :
    followedBy config (return "") rest = rest.drain config := by
  simp only [followedBy, pure_bind, String.empty_append, bind_pure]

theorem planMembers_eq (below : Node F → Plan F σ → Plan F σ) (levels depth : Nat)
    (nodes : List (Node F)) (rest : Plan F σ) :
    planMembers program config below levels depth nodes rest =
      planEach (planLevel program config below levels depth) nodes rest := by
  induction nodes with
  | nil => rfl
  | cons n nodes ih => simp only [planMembers, planEach, ih]

private theorem drain_planEach {below : Node F → Plan F σ → Plan F σ}
    {f : Node F → Walk σ (Registry F) String} (nodes : List (Node F))
    (h : ∀ n ∈ nodes, ∀ rest, (below n rest).drain config = followedBy config (f n) rest)
    (rest : Plan F σ) :
    (planEach below nodes rest).drain config =
      followedBy config (String.join <$> walkEach f nodes) rest := by
  induction nodes with
  | nil =>
    simp only [planEach, walkEach, map_pure]
    exact (followedBy_pure rest).symm
  | cons n nodes ih =>
    have hn := h n (by simp)
    have hnodes := ih fun m hm => h m (by simp [hm])
    simp only [planEach, walkEach, hn, hnodes, followedBy, map_eq_pure_bind, bind_assoc, pure_bind,
      String.join_cons, String.append_assoc]

private theorem drain_planElement {below : Node F → Plan F σ → Plan F σ}
    {f : Node F → Walk σ (Registry F) String}
    (h : ∀ n rest, (below n rest).drain config = followedBy config (f n) rest)
    (levels depth : Nat) (e : Element F (Node F)) (rest : Plan F σ) :
    (planElement program config below (levels + 1) depth e rest).drain config =
      followedBy config ((streamed program config).element f levels depth e) rest := by
  unfold planElement
  simp only [streamed]
  split
  · rfl
  · split
    · rfl
    · split
      · rfl
      · simp only [Plan.drain, drain_planEach e.childNodes fun n _ => h n, followedBy,
          map_eq_pure_bind, bind_assoc, pure_bind, String.append_assoc]

private theorem drain_planLevel {below : Node F → Plan F σ → Plan F σ}
    {f : Node F → Walk σ (Registry F) String} {levels depth : Nat}
    (h : ∀ n rest, (below n rest).drain config = followedBy config (f n) rest)
    (node : Node F) (rest : Plan F σ) :
    (planLevel program config below levels depth node rest).drain config =
      followedBy config ((streamed program config).visitLevel program config
        (resolveFrom program config levels (depth + 1)) f levels depth node) rest := by
  induction node using Node.inductOn generalizing rest with
  | empty => exact (followedBy_pure rest).symm
  | text value => rfl
  | component c =>
    simp only [planLevel, Plan.drain, Traversal.visitLevel, followedBy, bind_assoc]
    congr 1
    funext outcome
    cases outcome with
    | ok node => exact h node rest
    | error e => cases e <;> rfl
  | collection nodes ih =>
    simp only [planLevel, planMembers_eq, Traversal.visitLevel, Traversal.visitMembers_eq,
      drain_planEach nodes ih, followedBy, streamed, map_eq_pure_bind]
  | element e _ => exact drain_planElement h levels depth e rest

private theorem drain_planFrom (levels depth : Nat) (node : Node F) (rest : Plan F σ) :
    (planFrom program config levels depth node rest).drain config =
      followedBy config ((streamed program config).visit program config levels depth node)
        rest := by
  induction levels generalizing depth node rest with
  | zero => rfl
  | succ levels ih => exact drain_planLevel (fun n rest => ih (depth + 1) n rest) node rest

theorem drain_plan (node : Node F) : (plan program config node).drain config =
    (streamed program config).visit program config (config.levelsAt 1) 1 node := by
  simp only [plan, drain_planFrom, followedBy, Plan.drain, pure_bind, String.append_empty, bind_pure]

end

end TreeRender.Markup
