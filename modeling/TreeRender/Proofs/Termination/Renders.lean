import TreeRender.Proofs.Failures.Policy
import TreeRender.Proofs.Stream.Steps
import TreeRender.Proofs.Termination.Streams

/-!
# Renders end

Whatever the functions return, every render ends, and so does every pull of a stream. On the way no
component is called at a depth that the limit does not allow, and a render that goes past the limit
is given up at the first level past it.
-/

namespace TreeRender

open Markup MarkupStream

variable {F H N σ α : Type} {config : Config}

def Config.Allows (config : Config) (depths : List Nat) : Prop :=
  ∀ depth ∈ depths, 1 ≤ depth ∧ depth ≤ config.maxDepth

/-- An error at the depth limit names the first depth past it, and the limit. -/
def RenderError.AtLimit (config : Config) : RenderError → Prop
  | .depthExceeded depth maxDepth => depth = config.maxDepth + 1 ∧ maxDepth = config.maxDepth
  | _ => True

private theorem RenderError.Escapes.atLimit {e : RenderError} {s : Scene σ} (h : e.Escapes config s)
    :
    e.AtLimit config := by
  cases e with
  | depthExceeded depth maxDepth => exact ⟨h.1, h.2.1⟩
  | failed cause => trivial
  | config cause => trivial

private theorem RenderError.Escapes.allows {e : RenderError} {s : Scene σ} (h : e.Escapes config s)
    :
    config.Allows s.callDepths := by
  cases e with
  | depthExceeded depth maxDepth => exact h.2.2.depths
  | failed cause => exact h.2.depths
  | config cause => exact h.elim

/-- The calls of a render are within the limit, and an error that ends it is at the limit. -/
structure WithinLimit (config : Config) (result : Except RenderError α) (depths : List Nat) :
    Prop where
  calls : config.Allows depths
  error : ∀ e, result = .error e → e.AtLimit config

private theorem Scene.Ended.withinLimit {result : Except RenderError α} {s : Scene σ}
    (h : Scene.Ended config result s) : WithinLimit config result s.callDepths := by
  cases result with
  | ok a =>
    have hcalm : s.Calm config 0 := h
    exact ⟨hcalm.depths, fun _ he => nomatch he⟩
  | error e =>
    have hescapes : e.Escapes config s := h
    refine ⟨hescapes.allows, fun e' he => ?_⟩
    cases he
    exact hescapes.atLimit

theorem WithinLimit.map {γ : Type} {result : Except RenderError α} {depths : List Nat}
    (h : WithinLimit config result depths) (f : α → γ) :
    WithinLimit config (result.map f) depths := by
  refine ⟨h.calls, fun e he => h.error e ?_⟩
  cases result with
  | ok a => cases he
  | error e' =>
    cases he
    rfl

/-- A call of a component that begins with a calm scene. -/
def Calls.Answers (config : Config) (x : Calls σ (Except RenderError (Node F))) : Prop :=
  ∀ s, s.Calm config 0 → Scene.Called config (x.exec s)

private theorem settles_opening {program : Program F σ} (e : Element F (Node F)) :
    Walk.Settles config (opening program config e) := by
  apply (Walk.composable_settles config (backend config.enableHydration)).opening fun _ hs => hs
  cases e.text with
  | none => exact fun _ hs => hs
  | some directive => exact settles_directive directive

private theorem stepsAre_settles (program : Program F σ) :
    StepsAre program config (Walk.Settles config) (Calls.Answers config) where
  tooDeep _ hs := ⟨rfl, rfl, hs⟩
  text _ _ hs := hs
  unnamed _ _ hs := hs
  opening e _ := settles_opening e
  closing _ _ _ hs := hs
  piece levels depth e hdepth hpos _ :=
    (Walk.closed_settles program config (backend config.enableHydration)).walkFrom (by omega) hpos
      trivial
  call levels depth c hdepth hpos _ hs :=
    called_invoke (fun _ => keepsOrder_resolveFrom (by omega) (by omega) _) hpos (by omega) c hs

namespace MarkupStream

/-- A stream that has not ended begins its next pull with a calm scene, and with a plan whose steps
leave calm scenes or errors that may escape. -/
structure Goes (config : Config) (s : MarkupStream F σ) : Prop where
  configured : s.engine.config = config
  calm : s.walk.toScene.Calm config 0
  plan : s.plan.Forall (Walk.Settles config) (Calls.Answers config)

structure PullsWithin (config : Config) (p : Option Item × MarkupStream F σ) : Prop where
  calls : config.Allows p.2.walk.callDepths
  error : ∀ e, p.1 = some (.error e) → e.AtLimit config
  goes : p.2.finished = false → p.2.Goes config

private theorem pullsWithin_finish {s : MarkupStream F σ} {e : RenderError}
    (h : e.Escapes config s.walk.toScene) :
    PullsWithin config ((some (.error e), s.finish) : Option Item × MarkupStream F σ) := by
  refine ⟨h.allows, fun e' he => ?_, fun hunfinished => nomatch hunfinished⟩
  cases he
  exact h.atLimit

private theorem pullsWithin_done {s : MarkupStream F σ} (h : s.walk.toScene.Calm config 0) :
    PullsWithin config (pullFrom .done s).value := by
  rw [pullFrom_done, takeChunk_eq]
  refine ⟨h.depths, fun e he => ?_, fun hunfinished => nomatch hunfinished⟩
  split at he <;> cases he

private theorem pullsWithin_write {opens : Bool} {piece : Walk σ (Registry F) String}
    {rest : Plan F σ}
    {s : MarkupStream F σ} (hconfig : s.engine.config = config)
    (hpiece : Scene.Ended config (piece.exec s.walk).1 (piece.exec s.walk).2.toScene)
    (hrest : rest.Forall (Walk.Settles config) (Calls.Answers config))
    (ih : ∀ s : MarkupStream F σ, s.engine.config = config → s.walk.toScene.Calm config 0 →
      PullsWithin config (pullFrom rest s).value) :
    PullsWithin config (pullFrom (.write opens piece rest) s).value := by
  cases hp : piece.exec s.walk with
  | mk result walk =>
    rw [hp] at hpiece
    cases result with
    | error e =>
      rw [pullFrom_write_error hp]
      exact pullsWithin_finish (s := { s with walk, plan := rest }) hpiece
    | ok text =>
      have hcalm : walk.toScene.Calm config 0 := hpiece
      obtain ⟨buffer, opened, minifier, hpushed⟩ :=
        push_eq_with { s with walk, plan := rest } opens text
      rw [pullFrom_write_ok hp]
      generalize { s with walk, plan := rest }.push opens text = pushed at hpushed ⊢
      obtain ⟨chunk, t⟩ := pushed
      have ht : t = { s with walk, plan := rest, buffer, opened, minifier } := hpushed
      cases chunk with
      | none => exact ih t (by rw [ht]; exact hconfig) (by rw [ht]; exact hcalm)
      | some chunk =>
        rw [ht]
        exact ⟨hcalm.depths, fun e he => (nomatch he), fun _ => ⟨hconfig, hcalm, hrest⟩⟩

private theorem pullsWithin_pullFrom (plan : Plan F σ)
    (hplan : plan.Forall (Walk.Settles config) (Calls.Answers config)) {s : MarkupStream F σ}
    (hconfig : s.engine.config = config) (hcalm : s.walk.toScene.Calm config 0) :
    PullsWithin config (pullFrom plan s).value := by
  induction plan generalizing s with
  | done => exact pullsWithin_done hcalm
  | write opens piece rest ih =>
    exact pullsWithin_write hconfig (hplan.1 _ hcalm) hplan.2 fun s hs hc => ih hplan.2 hs hc
  | call component resume rest ihresume ihrest =>
    obtain ⟨hcomponent, hresume, hrest⟩ := hplan
    have called := hcomponent s.walk.toScene hcalm
    apply pullFrom_call_cases (P := PullsWithin config)
    · intro node scene hcall
      rw [hcall] at called
      exact ihresume node (hresume node) hconfig called
    · intro cause scene hcall
      rw [hcall] at called
      rw [hconfig]
      exact pullsWithin_write (s := { s with walk.toScene := scene }) hconfig
        (ended_recover cause called) hrest fun s hs hc => ihrest hrest hs hc
    · intro e scene hcall he
      rw [hcall] at called
      exact pullsWithin_finish (s := { s with walk.toScene := scene }) (called.escapes he)

private theorem PullsWithin.next {p : Option Item × MarkupStream F σ} (h : PullsWithin config p) :
    PullsWithin config p.2.next.value := by
  unfold MarkupStream.next
  split
  · exact ⟨h.calls, fun e he => (nomatch he), h.goes⟩
  · rename_i hunfinished
    have hgoes := h.goes (Bool.eq_false_iff.2 hunfinished)
    exact pullsWithin_pullFrom p.2.plan hgoes.plan hgoes.configured hgoes.calm

private theorem Pulled.pullsWithin {r : MarkupRenderer F} {program : Program F σ} {node : Node F}
    {world : World σ} {s : MarkupStream F σ} (h : (MarkupStream.new r program node world).Pulled s) :
    PullsWithin r.engine.config s.next.value := by
  induction h with
  | start =>
    exact pullsWithin_pullFrom _ (forall_plan (stepsAre_settles program) node) rfl
      (Scene.calm_start world.state)
  | pull _ ih => exact ih.next

end MarkupStream

private theorem MarkupRenderer.Sound.walked_settles {r : MarkupRenderer F} (h : r.Sound config)
    (program : Program F σ) (node : Node F) (world : World σ) :
    (Eventually (walkRound program config (backend config.enableHydration)) fun w =>
      (w 1 node).exec (r.engine.start world r.actions).2 = r.walked program node world) ∧
    WithinLimit config (r.render program node world).value.result
      (r.walked program node world).2.callDepths := by
  obtain ⟨rfl, -⟩ := h
  have settles : Walk.Settles r.engine.config
      (walk program r.engine.config (backend r.engine.config.enableHydration) 1 node) :=
    (Walk.closed_settles ..).walk trivial
  have ended := settles (r.engine.start world r.actions).2 (Scene.calm_start world.state)
  rw [value_render]
  exact ⟨walk_settles 1 node _, ended.withinLimit.map _⟩

private theorem LiveRenderer.Sound.walked_settles {r : LiveRenderer H} (h : r.Sound F config)
    (host : Dom.Host F H N) (program : Program F σ) (node : Node F) (container : Option N)
    (world : World σ) :
    (Eventually (walkRound program config (Dom.backend host config.defaultNamespace)) fun w =>
      (w 1 node).exec (r.engine.start world { host := r.host }).2 =
        r.walked host program node world) ∧
    WithinLimit config (r.render host program node container world).value.result
      (r.walked host program node world).2.callDepths := by
  obtain ⟨rfl, -⟩ := h
  have settles : Walk.Settles r.engine.config
      (walk program r.engine.config (Dom.backend host r.engine.config.defaultNamespace) 1 node) :=
    (Walk.closed_settles ..).walk trivial
  have ended := settles (r.engine.start world { host := r.host }).2 (Scene.calm_start world.state)
  rw [value_render]
  exact ⟨walk_settles 1 node _, ended.withinLimit⟩

/-- Every render of a tree ends, to markup and to live nodes, and so does every pull of a stream of
its markup, and every resolving of a node by a provider. No component is called at a depth that the
limit does not allow, and no error names another depth than the first one past it. -/
theorem render_terminates {r : MarkupRenderer F} {live : LiveRenderer H} {host : Dom.Host F H N}
    (hr : r.Reachable config) (hlive : live.Reachable host config) (program : Program F σ)
    (node : Node F) (container : Option N) (world : World σ) :
    ((Eventually (walkRound program config (backend config.enableHydration)) fun w =>
        (w 1 node).exec (r.engine.start world r.actions).2 = r.walked program node world) ∧
      WithinLimit config (r.render program node world).value.result
        (r.walked program node world).2.callDepths) ∧
    ((Eventually (walkRound program config (Dom.backend host config.defaultNamespace)) fun w =>
        (w 1 node).exec (live.engine.start world { host := live.host }).2 =
          live.walked host program node world) ∧
      WithinLimit config (live.render host program node container world).value.result
        (live.walked host program node world).2.callDepths) ∧
    (∀ s, (MarkupStream.new r program node world).Pulled s →
      (∃ stack, s.plan = stackPlan program config stack ∧
        (s.finished = false → Eventually (loopRound program config) fun again =>
          (again stack s).value = s.next.value)) ∧
      PullsWithin config s.next.value) ∧
    ∀ depth node scene, Eventually (Evaluator.round program config) fun E =>
      (E.resolve (depth + 1) node).exec scene = (resolve program config depth node).exec scene := by
  have hsound := hr.sound
  have hsoundlive : live.Sound F config := hlive.sound
  refine ⟨hsound.walked_settles program node world,
    hsoundlive.walked_settles host program node container world, ?_, ?_⟩
  · obtain ⟨rfl, -⟩ := hsound
    exact fun s hs => ⟨hs.settles, hs.pullsWithin⟩
  · exact fun depth node scene => (evaluation_settles (depth + 1)).1 node scene

/-- A producer that returns itself, over and over, in a collection inside of an element. -/
def Program.endless : Program String Unit where
  produce name _ := return (.ok (.element ((Element.new "a").child
    (.collection [.component (.producer name), .component (.provider name)]))), ())
  provide name _ _ _ :=
    .resolve (return (.component (.producer name), ())) fun node _ => .finish (return (.ok node, ()))
  compute _ _ := return (.ok "", ())

theorem render_terminates_endless :
    Eventually (walkRound Program.endless { maxDepth := 4 } (backend false)) fun w =>
      ((w 1 (.component (.provider "again"))).exec
        ((MarkupRenderer.fresh { maxDepth := 4 } : MarkupRenderer String).engine.start
          { state := (), clock := { reading := id } } {}).2).1 = .error (.depthExceeded 5 4) := by
  have hr : (MarkupRenderer.fresh { maxDepth := 4 } : MarkupRenderer String).Reachable
      { maxDepth := 4 } := .new rfl
  have hlive : (LiveRenderer.fresh { maxDepth := 4 } {} :
      LiveRenderer (Dom.Document String)).Reachable Dom.Document.host { maxDepth := 4 } := .new rfl
  have hterminates := render_terminates hr hlive Program.endless (.component (.provider "again"))
    none { state := (), clock := { reading := id } }
  apply hterminates.1.1.mono
  intro w hw
  exact (congrArg Prod.fst hw).trans rfl

end TreeRender
