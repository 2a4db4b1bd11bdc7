import TreeRender.Proofs.Stream.Pull

/-!
# How a stream ends

Every stream can be drained, whatever its configuration: then all its items are chunks, or chunks
and at last the error in which taking the steps of its plan ends. Chunks may be encoded and minified
in any way.
-/

namespace TreeRender

open Markup

variable {F σ : Type}

namespace MarkupStream

/-- What the items of a drained stream come to: the chunks, or the first error. -/
def outcome : List Item → Except RenderError (List String)
  | [] => .ok []
  | .ok chunk :: rest => (outcome rest).map (chunk :: ·)
  | .error e :: _ => .error e

theorem outcome_ok (chunks : List String) : outcome (chunks.map .ok) = .ok chunks := by
  induction chunks with
  | nil => rfl
  | cons chunk rest ih => rw [List.map_cons, outcome, ih]; rfl

def ending {α : Type} (result : Except RenderError α) : Except RenderError Unit :=
  result.map fun _ => ()

@[simp] theorem ending_map {α γ : Type} (f : α → γ) (result : Except RenderError α) :
    ending (result.map f) = ending result := by
  cases result <;> rfl

theorem ending_eq_ok {α : Type} {result : Except RenderError α} :
    ending result = .ok () ↔ ∃ a, result = .ok a := by
  cases result with
  | ok a => exact ⟨fun _ => ⟨a, rfl⟩, fun _ => rfl⟩
  | error e => exact ⟨fun h => (nomatch h), fun ⟨_, h⟩ => (nomatch h)⟩

theorem ending_eq_error {α : Type} {result : Except RenderError α} {e : RenderError} :
    ending result = .error e ↔ result = .error e := by
  cases result with
  | ok a => exact ⟨fun h => (nomatch h), fun h => (nomatch h)⟩
  | error e' =>
    constructor
    · intro h
      cases h
      rfl
    · intro h
      cases h
      rfl

/-- How a stream that was in the state `s` is left by a drain, given how draining its plan ends,
whatever becomes of the markup. -/
structure Concludes (s : MarkupStream F σ)
    (ends : Except RenderError String × WalkState σ (Registry F)) (items : List Item)
    (last : MarkupStream F σ) : Prop where
  walk : last.walk = { ends.2 with clock := (Engine.recordTime s.engine.config ends.2.clock).2 }
  engine : last.engine = s.engine.after (s.engine.finish s.startedAt (.ok ()) ends.2)
  outcome : ending (outcome items) = ending ends.1

theorem push_eq_with (s : MarkupStream F σ) (opens : Bool) (text : String) :
    ∃ buffer opened minifier,
      (s.push opens text).2 = { s with buffer, opened, minifier } := by
  rw [push_eq]
  split
  · exact ⟨_, _, _, rfl⟩
  · exact ⟨_, _, _, rfl⟩

private theorem concludes_finish (s : MarkupStream F σ) (e : RenderError) :
    ∃ items last, Drains (some (.error e), s.finish) items last ∧
      Concludes s (.error e, s.walk) items last := by
  refine ⟨[.error e], s.finish, .item ?_, rfl, rfl, rfl⟩
  have hnext : s.finish.next = return (none, s.finish) := rfl
  rw [hnext]
  exact .stop

private theorem concludes_done (s : MarkupStream F σ) :
    ∃ items last, Drains (pullFrom .done s).value items last ∧
      Concludes s (.ok "", s.walk) items last := by
  have stopped : Drains (s.finish.cut true).next.value [] (s.finish.cut true) := by
    have hnext : (s.finish.cut true).next = return (none, s.finish.cut true) := rfl
    rw [hnext]
    exact .stop
  rw [pullFrom_done, takeChunk_eq]
  by_cases hempty : (minified s.finish.minifier true s.finish.buffer).1 = ""
  · rw [if_pos hempty]
    exact ⟨[], _, .stop, rfl, rfl, rfl⟩
  · rw [if_neg hempty]
    exact ⟨_, _, .item stopped, rfl, rfl, rfl⟩

private theorem concludes_write {config : Config} {opens : Bool}
    {piece : Walk σ (Registry F) String}
    {rest : Plan F σ}
    (ih : ∀ s : MarkupStream F σ, s.engine.config = config → s.finished = false →
      ∃ items last, Drains (pullFrom rest s).value items last ∧
        Concludes s ((rest.drain config).exec s.walk) items last)
    {s : MarkupStream F σ} (hconfig : s.engine.config = config) (hunfinished : s.finished = false) :
    ∃ items last, Drains (pullFrom (.write opens piece rest) s).value items last ∧
      Concludes s (((Plan.write opens piece rest).drain config).exec s.walk) items last := by
  rw [Plan.drain, Walk.exec_bind]
  cases hp : piece.exec s.walk with
  | mk result walk =>
    cases result with
    | error e =>
      rw [pullFrom_write_error hp]
      obtain ⟨items, last, hdrains, hends⟩ := concludes_finish { s with walk, plan := rest } e
      exact ⟨items, last, hdrains, hends.walk, hends.engine, hends.outcome⟩
    | ok text =>
      obtain ⟨buffer, opened, minifier, hpushed⟩ :=
        push_eq_with { s with walk, plan := rest } opens text
      rw [pullFrom_write_ok hp]
      generalize { s with walk, plan := rest }.push opens text = pushed at hpushed ⊢
      obtain ⟨chunk, t⟩ := pushed
      have ht : t = { s with walk, plan := rest, buffer, opened, minifier } := hpushed
      obtain ⟨items, last, hdrains, hends⟩ := ih t (by rw [ht]; exact hconfig)
        (by rw [ht]; exact hunfinished)
      have concludes (items' : List Item) (hitems : ending (outcome items') = ending (outcome items)) :
          Concludes s ((do
            let more ← rest.drain config
            return text ++ more : Walk σ (Registry F) String).exec walk) items' last := by
        rw [Walk.exec_bind_pure]
        refine ⟨?_, ?_, ?_⟩
        · rw [hends.walk, ht]
        · rw [hends.engine, ht]
        · rw [hitems, hends.outcome, ending_map, ht]
      cases chunk with
      | none => exact ⟨items, last, hdrains, concludes items rfl⟩
      | some chunk =>
        have hnext : t.next.value = (pullFrom rest t).value := by
          rw [ht, next, hunfinished]
          rfl
        exact ⟨.ok chunk :: items, last, .item (hnext ▸ hdrains), concludes _ (ending_map _ _)⟩

theorem concludes_pullFrom {config : Config} (plan : Plan F σ) {s : MarkupStream F σ}
    (hconfig : s.engine.config = config) (hunfinished : s.finished = false) :
    ∃ items last, Drains (pullFrom plan s).value items last ∧
      Concludes s ((plan.drain config).exec s.walk) items last := by
  induction plan generalizing s with
  | done => exact concludes_done s
  | write opens piece rest ih =>
    exact concludes_write (fun s hs hu => ih hs hu) hconfig hunfinished
  | call component resume rest ihresume ihrest =>
    rw [Plan.drain, Walk.exec_bind, Walk.exec_onScene]
    apply pullFrom_call_cases (P := fun pull => ∃ items last, Drains pull items last ∧
      Concludes s _ items last)
    · intro node scene hcall
      rw [hcall]
      obtain ⟨items, last, hdrains, hends⟩ :=
        ihresume node (s := { s with walk.toScene := scene }) hconfig hunfinished
      exact ⟨items, last, hdrains, hends.walk, hends.engine, hends.outcome⟩
    · intro cause scene hcall
      rw [hcall, hconfig]
      have hrest (s : MarkupStream F σ) (hs : s.engine.config = config)
          (hu : s.finished = false) := ihrest hs hu
      obtain ⟨items, last, hdrains, hends⟩ :=
        concludes_write hrest (s := { s with walk.toScene := scene }) hconfig hunfinished
      exact ⟨items, last, hdrains, hends.walk, hends.engine, hends.outcome⟩
    · intro e scene hcall he
      obtain ⟨items, last, hdrains, hends⟩ := concludes_finish { s with walk.toScene := scene } e
      refine ⟨items, last, hdrains, ?_⟩
      rw [hcall]
      cases e with
      | failed cause => exact absurd rfl (he cause)
      | _ => exact ⟨hends.walk, hends.engine, hends.outcome⟩

end MarkupStream

end TreeRender
