import TreeRender.Proofs.Stream.Drain
import TreeRender.Proofs.Walk.Closed

/-!
# The steps of a plan

What holds of every step that the plan of a tree can have holds of every step that it has: the
pieces that it writes, and the components that it calls, whatever they come to.
-/

namespace TreeRender

namespace Markup

variable {F σ : Type}

/-- All pieces that a plan may come to write are as `P` says, given whether they count as opened
elements, and all calls as `Q` says. -/
def Plan.Every (P : Bool → Walk σ (Registry F) String → Prop)
    (Q : Calls σ (Except RenderError (Node F)) → Prop) : Plan F σ → Prop
  | .done => True
  | .write opens piece rest => P opens piece ∧ rest.Every P Q
  | .call component resume rest =>
    Q component ∧ (∀ node, (resume node).Every P Q) ∧ rest.Every P Q

/-- What `P` and `Q` have to hold of, for the steps of the plan of a tree. -/
structure StepsCount (program : Program F σ) (config : Config)
    (P : Bool → Walk σ (Registry F) String → Prop)
    (Q : Calls σ (Except RenderError (Node F)) → Prop) : Prop where
  tooDeep : P false (do reportDepth; throw (config.depthError (config.maxDepth + 1)))
  text : ∀ content, P false (return escape content)
  unnamed : ∀ tag, P false (do reportTag tag; return "")
  opening : ∀ e : Element F (Node F), isValidName e.tag = true →
    P true (opening program config e)
  closing : ∀ tag, isValidName tag = true → P false (return closeTag tag)
  piece : ∀ levels depth (e : Element F (Node F)), depth + levels = config.maxDepth → 1 ≤ depth →
    config.isCacheable e = true → P true (pieceOf program config (levels + 1) depth (.element e))
  call : ∀ levels depth c, depth + levels = config.maxDepth → 1 ≤ depth →
    Q (invoke program config (resolveFrom program config levels (depth + 1)) depth c)

section

variable {program : Program F σ} {config : Config}
  {P : Bool → Walk σ (Registry F) String → Prop}
  {Q : Calls σ (Except RenderError (Node F)) → Prop}

private theorem every_planEach {below : Node F → Plan F σ → Plan F σ} (nodes : List (Node F))
    (h : ∀ n ∈ nodes, ∀ rest, rest.Every P Q → (below n rest).Every P Q) {rest : Plan F σ}
    (hrest : rest.Every P Q) : (planEach below nodes rest).Every P Q := by
  induction nodes with
  | nil => exact hrest
  | cons n nodes ih => exact h n (by simp) _ (ih fun m hm => h m (by simp [hm]))

variable (hsteps : StepsCount program config P Q)

include hsteps

private theorem every_planElement {below : Node F → Plan F σ → Plan F σ} {levels depth : Nat}
    (hdepth : depth + levels = config.maxDepth) (hpos : 1 ≤ depth)
    (h : ∀ n rest, rest.Every P Q → (below n rest).Every P Q) (e : Element F (Node F))
    {rest : Plan F σ} (hrest : rest.Every P Q) :
    (planElement program config below (levels + 1) depth e rest).Every P Q := by
  unfold planElement
  split
  · rename_i hcacheable
    exact ⟨hsteps.piece levels depth e hdepth hpos hcacheable, hrest⟩
  · cases hvalid : isValidName e.tag with
    | false => exact ⟨hsteps.unnamed e.tag, hrest⟩
    | true =>
      rw [Bool.not_true, if_neg Bool.false_ne_true]
      split
      · exact ⟨hsteps.opening e hvalid, hrest⟩
      · exact ⟨hsteps.opening e hvalid,
          every_planEach e.childNodes (fun n _ => h n) ⟨hsteps.closing e.tag hvalid, hrest⟩⟩

private theorem every_planLevel {below : Node F → Plan F σ → Plan F σ} {levels depth : Nat}
    (hdepth : depth + levels = config.maxDepth) (hpos : 1 ≤ depth)
    (h : ∀ n rest, rest.Every P Q → (below n rest).Every P Q) (node : Node F) {rest : Plan F σ}
    (hrest : rest.Every P Q) :
    (planLevel program config below levels depth node rest).Every P Q := by
  induction node using Node.inductOn generalizing rest with
  | empty => exact hrest
  | text value => exact ⟨hsteps.text value.text, hrest⟩
  | component c =>
    exact ⟨hsteps.call levels depth c hdepth hpos, fun node => h node rest hrest, hrest⟩
  | collection nodes ih =>
    rw [planLevel, planMembers_eq]
    exact every_planEach nodes (fun n hn _ => ih n hn) hrest
  | element e _ => exact every_planElement hsteps hdepth hpos h e hrest

private theorem every_planFrom {levels depth : Nat} (hdepth : depth + levels = config.maxDepth + 1)
    (hpos : 1 ≤ depth) (node : Node F) {rest : Plan F σ} (hrest : rest.Every P Q) :
    (planFrom program config levels depth node rest).Every P Q := by
  induction levels generalizing depth node rest with
  | zero =>
    have hlast : depth = config.maxDepth + 1 := hdepth
    exact ⟨hlast ▸ hsteps.tooDeep, trivial⟩
  | succ levels ih =>
    exact every_planLevel hsteps (by omega) hpos
      (fun n rest hr => ih (by omega) (by omega) n hr) node hrest

/-- Every step of the plan of a tree is one of those. -/
theorem every_plan (node : Node F) : (plan program config node).Every P Q :=
  every_planFrom hsteps (Nat.add_comm _ _) (Nat.le_refl 1) node trivial

end

/-- All pieces that a plan may come to write are as `P` says, and all calls as `Q` says. -/
def Plan.Forall (P : Walk σ (Registry F) String → Prop)
    (Q : Calls σ (Except RenderError (Node F)) → Prop) : Plan F σ → Prop
  | .done => True
  | .write _ piece rest => P piece ∧ rest.Forall P Q
  | .call component resume rest =>
    Q component ∧ (∀ node, (resume node).Forall P Q) ∧ rest.Forall P Q

/-- What `P` and `Q` have to hold of, for the steps of the plan of a tree. -/
structure StepsAre (program : Program F σ) (config : Config)
    (P : Walk σ (Registry F) String → Prop)
    (Q : Calls σ (Except RenderError (Node F)) → Prop) : Prop where
  tooDeep : P (do reportDepth; throw (config.depthError (config.maxDepth + 1)))
  text : ∀ content, P (return escape content)
  unnamed : ∀ tag, P (do reportTag tag; return "")
  opening : ∀ e : Element F (Node F), isValidName e.tag = true → P (opening program config e)
  closing : ∀ tag, isValidName tag = true → P (return closeTag tag)
  piece : ∀ levels depth (e : Element F (Node F)), depth + levels = config.maxDepth → 1 ≤ depth →
    config.isCacheable e = true → P (pieceOf program config (levels + 1) depth (.element e))
  call : ∀ levels depth c, depth + levels = config.maxDepth → 1 ≤ depth →
    Q (invoke program config (resolveFrom program config levels (depth + 1)) depth c)

section

variable {program : Program F σ} {config : Config} {P : Walk σ (Registry F) String → Prop}
  {Q : Calls σ (Except RenderError (Node F)) → Prop}

private theorem Plan.Every.forall {plan : Plan F σ} (h : plan.Every (fun _ => P) Q)
    : plan.Forall P Q := by
  induction plan with
  | done => trivial
  | write opens piece rest ih => exact ⟨h.1, ih h.2⟩
  | call component resume rest ihresume ihrest =>
    exact ⟨h.1, fun node => ihresume node (h.2.1 node), ihrest h.2.2⟩

theorem forall_plan (hsteps : StepsAre program config P Q) (node : Node F) :
    (plan program config node).Forall P Q := by
  have counted : StepsCount program config (fun _ => P) Q :=
    ⟨hsteps.tooDeep, hsteps.text, hsteps.unnamed, hsteps.opening, hsteps.closing, hsteps.piece,
      hsteps.call⟩
  exact (every_plan counted node).forall

end

end Markup

theorem Walk.Composable.opening {program : Program F σ} {config : Config} {N : Node F → Prop}
    {P : {α : Type} → Walk σ (Registry F) α → Prop}
    (h : Walk.Composable (Markup.backend config.enableHydration) N P) {e : Element F (Node F)}
    (tag : P (Walk.onBackend (Markup.openTag config.enableHydration e)))
    (directive : P (TreeRender.walkDirective program config (Markup.backend config.enableHydration)
      e.text)) :
    P (Markup.opening program config e) := by
  unfold Markup.opening
  apply h.bind h.countElement
  intro _
  apply h.bind tag
  intro _
  split
  · exact h.bind (h.logged _) fun _ => h.pure _
  · exact h.bind directive fun _ => h.pure _

end TreeRender
