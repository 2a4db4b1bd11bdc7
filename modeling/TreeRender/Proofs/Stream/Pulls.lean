import TreeRender.Proofs.Stream.Pull
import TreeRender.Proofs.Walk.Closed

/-!
# What pulls keep

A stream that is pulled a few times and then given up has taken some of its steps. Whatever each of
the steps keeps, and each cut of a chunk, holds of the items that the pulls gave and of the stream
as they left it.
-/

namespace TreeRender

open Markup

variable {F σ : Type}

namespace MarkupStream

/-- Some number of pulls of `s` give `items` and leave it as the stream that it has become. -/
inductive Pulls (s : MarkupStream F σ) : List Item → MarkupStream F σ → Prop
  | start : Pulls s [] s
  | pull {items t} : Pulls s items t → Pulls s (items ++ t.next.value.1.toList) t.next.value.2

theorem Pulls.of_finished {s t : MarkupStream F σ} {items : List Item} (h : s.Pulls items t)
    (hs : s.finished = true) : items = [] ∧ t = s := by
  induction h with
  | start => exact ⟨rfl, rfl⟩
  | pull _ ih =>
    obtain ⟨rfl, rfl⟩ := ih
    rw [next, if_pos hs]
    exact ⟨rfl, rfl⟩

/-- A property of the plan that is left, the items given so far and the stream, which each step of
the plan keeps, and each cut of a chunk. -/
structure Kept (config : Config) (J : Plan F σ → List Item → MarkupStream F σ → Prop) : Prop where
  plan : ∀ {left items s} plan, J left items s → J left items { s with plan }
  write : ∀ {opens piece rest items s text walk}, piece.exec s.walk = (.ok text, walk) →
    J (.write opens piece rest) items s → J rest items ({ s with walk }.written opens text)
  fail : ∀ {opens piece rest items s e walk}, piece.exec s.walk = (.error e, walk) →
    J (.write opens piece rest) items s → J .done (items ++ [.error e]) { s with walk }.finish
  call : ∀ {component resume rest items s node scene},
    component.exec s.walk.toScene = (.ok node, scene) →
    J (.call component resume rest) items s → J (resume node) items { s with walk.toScene := scene }
  fallback : ∀ {component resume rest items s cause scene},
    component.exec s.walk.toScene = (.error (.failed cause), scene) →
    J (.call component resume rest) items s →
    J (.write false (recover config (backend config.enableHydration) cause) rest) items
      { s with walk.toScene := scene }
  stop : ∀ {component resume rest items s e scene},
    component.exec s.walk.toScene = (.error e, scene) → (∀ cause, e ≠ .failed cause) →
    J (.call component resume rest) items s →
    J .done (items ++ [.error e]) { s with walk.toScene := scene }.finish
  finish : ∀ {items s}, J .done items s → J .done items s.finish
  cut : ∀ {left items s} last, s.engine.config = config → J left items s →
    J left (items ++ ((s.takeChunk last).1.map .ok : Option Item).toList) (s.cut last)

structure Held (config : Config) (J : Plan F σ → List Item → MarkupStream F σ → Prop)
    (items : List Item) (s : MarkupStream F σ) : Prop where
  configured : s.engine.config = config
  holds : J s.plan items s

section

variable {config : Config} {J : Plan F σ → List Item → MarkupStream F σ → Prop}
  (h : Kept config J) {items : List Item} {s : MarkupStream F σ}

include h

private theorem Held.takeChunk (hs : Held config J items s) (last : Bool) :
    Held config J (items ++ ((s.takeChunk last).1.map .ok : Option Item).toList)
      (s.takeChunk last).2 :=
  ⟨hs.configured, h.cut last hs.configured hs.holds⟩

private theorem Held.push {opens : Bool} {piece : String}
    (hs : Held config J items (s.written opens piece)) :
    Held config J (items ++ ((s.push opens piece).1.map .ok : Option Item).toList)
      (s.push opens piece).2 := by
  rw [push_eq]
  split
  · exact hs.takeChunk h false
  · rw [Option.map_none, Option.toList_none, List.append_nil]
    exact hs

private theorem Kept.held_written {opens : Bool} {piece : Walk σ (Registry F) String}
    {rest : Plan F σ}
    {text : String} {walk : WalkState σ (Registry F)} (hp : piece.exec s.walk = (.ok text, walk))
    (hconfig : s.engine.config = config) (hs : J (.write opens piece rest) items s) :
    Held config J items ({ s with walk, plan := rest }.written opens text) :=
  ⟨hconfig, h.write (s := { s with plan := rest }) hp (h.plan rest hs)⟩

private theorem held_pullFrom (plan : Plan F σ) (hconfig : s.engine.config = config)
    (hs : J plan items s) :
    Held config J (items ++ (pullFrom plan s).value.1.toList) (pullFrom plan s).value.2 := by
  apply pullFrom_inductOn (P := fun plan s pull => s.engine.config = config → J plan items s →
    Held config J (items ++ pull.1.toList) pull.2)
  case done =>
    intro s hconfig hs
    have hfinished : Held config J items s.finish := ⟨hconfig, h.finish hs⟩
    exact hfinished.takeChunk h true
  case fail =>
    intro opens piece rest s e walk hp hconfig hs
    exact ⟨hconfig, h.fail (s := { s with plan := rest }) hp (h.plan rest hs)⟩
  case give =>
    intro opens piece rest s text walk chunk t hp hpush hconfig hs
    have hpushed := (h.held_written hp hconfig hs).push h
    rw [hpush] at hpushed
    exact hpushed
  case write =>
    intro opens piece rest s text walk t pull hp hpush ih hconfig hs
    have hwritten := h.held_written hp hconfig hs
    have hplan : t.plan = rest := by
      have hsame := congrArg (fun p => p.2.plan) hpush
      rw [push_eq] at hsame
      split at hsame <;> exact hsame.symm
    have hpushed := hwritten.push h
    rw [hpush, Option.map_none, Option.toList_none, List.append_nil] at hpushed
    exact ih hpushed.configured (hplan ▸ hpushed.holds)
  case call =>
    intro component resume rest s node scene pull hcall ih hconfig hs
    exact ih hconfig (h.call hcall hs)
  case fallback =>
    intro component resume rest s cause scene pull hcall ih hconfig hs
    have hfallback := h.fallback hcall hs
    rw [← hconfig] at hfallback
    exact ih hconfig hfallback
  case stop =>
    intro component resume rest s e scene hcall he hconfig hs
    exact ⟨hconfig, h.stop hcall he hs⟩
  all_goals assumption

/-- What holds of a stream before it was pulled holds after any number of pulls. -/
theorem Pulls.held {t : MarkupStream F σ} (hpulls : s.Pulls items t) (hs : Held config J [] s) :
    Held config J items t := by
  induction hpulls with
  | start => exact hs
  | @pull items t _ ih =>
    unfold MarkupStream.next
    split
    · rw [Logged.value_pure, Option.toList_none, List.append_nil]
      exact ih
    · exact held_pullFrom h t.plan ih.configured ih.holds

end

/-- A property of the items given so far and of the stream, but not of the plan. `P` holds of the
pieces that the stream writes. -/
structure Lasts (config : Config) (P : Walk σ (Registry F) String → Prop)
    (J : List Item → MarkupStream F σ → Prop) : Prop where
  recovers : ∀ cause, P (recover config (backend config.enableHydration) cause)
  plan : ∀ {items s} plan, J items s → J items { s with plan }
  call : ∀ {items s} scene, J items s → J items { s with walk.toScene := scene }
  write : ∀ {items s piece text walk} opens, P piece → piece.exec s.walk = (.ok text, walk) →
    J items s → J items ({ s with walk }.written opens text)
  fail : ∀ {items s piece e walk}, P piece → piece.exec s.walk = (.error e, walk) →
    J items s → J (items ++ [.error e]) { s with walk }.finish
  stop : ∀ {items s} e, J items s → J (items ++ [.error e]) s.finish
  finish : ∀ {items s}, J items s → J items s.finish
  cut : ∀ {items s} last, s.engine.config = config → J items s →
    J (items ++ ((s.takeChunk last).1.map .ok : Option Item).toList) (s.cut last)

section

variable {config : Config} {P : Walk σ (Registry F) String → Prop}
  {J : List Item → MarkupStream F σ → Prop} (h : Lasts config P J)

include h

private theorem Lasts.kept :
    Kept config fun plan items s => plan.Forall P (fun _ => True) ∧ J items s where
  plan plan hs := ⟨hs.1, h.plan plan hs.2⟩
  write hp hs := ⟨hs.1.2, h.write _ hs.1.1 hp hs.2⟩
  fail hp hs := ⟨trivial, h.fail hs.1.1 hp hs.2⟩
  call _ hs := ⟨hs.1.2.1 _, h.call _ hs.2⟩
  fallback _ hs := ⟨⟨h.recovers _, hs.1.2.2⟩, h.call _ hs.2⟩
  stop _ _ hs := ⟨trivial, h.stop _ (h.call _ hs.2)⟩
  finish hs := ⟨trivial, h.finish hs.2⟩
  cut last hconfig hs := ⟨hs.1, h.cut last hconfig hs.2⟩

theorem Pulls.lasts {s t : MarkupStream F σ} {items : List Item} (hpulls : s.Pulls items t)
    (hconfig : s.engine.config = config) (hplan : s.plan.Forall P fun _ => True) (hs : J [] s) :
    J items t :=
  (hpulls.held h.kept ⟨hconfig, hplan, hs⟩).holds.2

end

end MarkupStream

section

variable {program : Program F σ} {config : Config}
  {R : WalkState σ (Registry F) → WalkState σ (Registry F) → Prop}
  (h : (backend (F := F) config.enableHydration).StepsWithin (fun _ => True) R)

include h

private theorem Markup.within_openTag {e : Element F (Node F)} (hvalid : isValidName e.tag = true) :
    Walk.Within R (Walk.onBackend (openTag config.enableHydration e)) := by
  intro s
  have hmade := h.operation (.element (e := e) [] hvalid trivial) s
  have hstate : (elementText config.enableHydration e [] s.backend).value.2 =
      (openTag config.enableHydration e s.backend).value.2 := by
    rw [value_elementText, value_openTag]
  change R s { s with backend := (elementText config.enableHydration e [] s.backend).value.2 }
    at hmade
  rw [hstate] at hmade
  exact hmade

private theorem Markup.within_opening {e : Element F (Node F)} (hvalid : isValidName e.tag = true) :
    Walk.Within R (opening program config e) :=
  h.composable.opening (within_openTag h hvalid)
    (h.composable.walkDirective h.throw h.onScene e.text)

private theorem Markup.stepsAre_within : StepsAre program config (Walk.Within R)
    (fun _ => True) where
  tooDeep := h.composable.bind (h.composable.logged _) fun _ => h.throw _
  text _ := h.composable.pure _
  unnamed _ := h.composable.bind (h.composable.logged _) fun _ => h.composable.pure _
  opening _ hvalid := within_opening h hvalid
  closing _ _ := h.composable.pure _
  piece levels depth e hdepth hpos _ := h.closed.walkFrom (by omega) hpos trivial
  call _ _ _ _ _ := trivial

theorem MarkupStream.Pulls.within {r : MarkupRenderer F} {node : Node F} {world : World σ}
    (hconfig : r.engine.config = config) {items : List Item} {t : MarkupStream F σ}
    (hpulls : (MarkupStream.new r program node world).Pulls items t) :
    R (r.engine.start world r.actions).2 t.walk := by
  have lasts : Lasts config (Walk.Within R)
      (fun _ t => R (r.engine.start world r.actions).2 t.walk) := {
    recovers := h.composable.recover h.throw
    plan := fun _ hs => hs
    call := fun scene hs => h.trans hs (h.scene _ scene)
    write := by
      intro items s piece text walk opens hpiece hp hs
      have hstep := hpiece s.walk
      rw [hp] at hstep
      exact h.trans hs hstep
    fail := by
      intro items s piece e walk hpiece hp hs
      have hstep := hpiece s.walk
      rw [hp] at hstep
      exact h.trans (h.trans hs hstep) (h.clock walk _)
    stop := fun _ hs => h.trans hs (h.clock _ _)
    finish := fun hs => h.trans hs (h.clock _ _)
    cut := fun _ _ hs => hs }
  subst hconfig
  exact hpulls.lasts lasts rfl (forall_plan (stepsAre_within h) node) (h.refl _)

end

end TreeRender
