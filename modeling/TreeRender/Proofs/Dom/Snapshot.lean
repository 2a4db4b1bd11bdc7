import TreeRender.Proofs.Dom.Nesting

/-!
# Events find listeners as they were

While an event is dispatched, the handlers that it calls may bind and unbind listeners and dispatch
further events, to the same node too. Whatever they do, the event calls the handlers of the
listeners that were there when it was dispatched, and what is bound meanwhile is found by events
that are dispatched later.
-/

namespace TreeRender.Dom

variable {F σ : Type}

inductive Note (F : Type) where
  | called (handler : F) (event : Event)
  | returned
  | changed (f : Document F → Logged (Nat × Document F))
  | dispatching (target : NodeId) (event : Event)
  | dispatched (count : Nat)

/-- The state of the user functions and the notes so far, oldest first. -/
abbrev Noted (F σ : Type) := σ × List (Note F)

def Page.noting (page : Page F σ) (notes : List (Note F)) : Page F (Noted F σ) where
  document := page.document
  state := (page.state, notes)

def Reaction.noted : Reaction F σ → List (Note F) → Reaction F (Noted F σ)
  | .done state, notes => .done (state, notes ++ [.returned])
  | .change f resume, notes => .change f fun n => (resume n).noted (notes ++ [.changed f])
  | .dispatch target event state resume, notes =>
    .dispatch target event (state, notes ++ [.dispatching target event]) fun count (state, notes) =>
      (resume count state).noted (notes ++ [.dispatched count])

/-- The same handlers, which note that they are called, what they do and that they return. -/
def Reactions.noted (reactions : Reactions F σ) : Reactions F (Noted F σ) :=
  fun handler event (state, notes) =>
    (reactions handler event state).noted (notes ++ [.called handler event])

/-- The calls in notes that are made while no other handler is being called, if at the beginning as
many as `depth` handlers are. -/
def Note.outermost : (depth : Nat) → List (Note F) → List (F × Event)
  | _, [] => []
  | 0, .called handler event :: rest => (handler, event) :: outermost 1 rest
  | depth + 1, .called _ _ :: rest => outermost (depth + 2) rest
  | depth, .returned :: rest => outermost (depth - 1) rest
  | depth, _ :: rest => outermost depth rest

/-- What is going on: handlers are called with an event, or one of them has been called. -/
inductive Activity (F : Type) where
  | calling (event : Event) (handlers : List F)
  | reacting

/-- Notes tell how an activity takes one document to another one. Which handlers an event calls is
settled when it is dispatched, by the document of that moment. -/
inductive Transcript : Activity F → Document F → List (Note F) → Document F → Prop
  | allCalled {event d} : Transcript (.calling event []) d [] d
  | call {event handler rest d d₁ d' notes more} : Transcript .reacting d notes d₁ →
    Transcript (.calling event rest) d₁ more d' →
    Transcript (.calling event (handler :: rest)) d
      (.called handler event :: (notes ++ .returned :: more)) d'
  | done {d} : Transcript .reacting d [] d
  | change {f d notes d'} : Transcript .reacting (f d).value.2 notes d' →
    Transcript .reacting d (.changed f :: notes) d'
  | dispatch {target event d calls d₁ notes d'} :
    Transcript (.calling event (d.handlersFor target event)) d calls d₁ →
    Transcript .reacting d₁ notes d' →
    Transcript .reacting d (.dispatching target event ::
      (calls ++ .dispatched (d.handlersFor target event).length :: notes)) d'

/-- Dispatching with notes does what dispatching without them does, and notes what happens. -/
def Dispatcher.Transcribes (dispatch : Dispatcher F σ) (noted : Dispatcher F (Noted F σ)) : Prop :=
  ∀ {target event page out}, dispatch target event page = some out →
    ∃ calls, Transcript (.calling event (page.document.handlersFor target event)) page.document
        calls out.value.2.document ∧
      out.value.1 = (page.document.handlersFor target event).length ∧
      ∀ earlier, noted target event (page.noting earlier) =
        some ((fun r => (r.1, r.2.noting (earlier ++ calls))) <$> out)

section

variable {dispatch : Dispatcher F σ} {noted : Dispatcher F (Noted F σ)}
  (h : dispatch.Transcribes noted)

include h

private theorem Dispatcher.Transcribes.runReaction {r : Reaction F σ} {d : Document F}
    {out : Logged (Page F σ)} (hrun : runReaction dispatch r d = some out) :
    ∃ notes, Transcript .reacting d notes out.value.document ∧
      ∀ earlier, Dom.runReaction noted (r.noted earlier) d =
        some ((·.noting (earlier ++ (notes ++ [.returned]))) <$> out) := by
  induction r generalizing d out with
  | done state =>
    cases hrun
    exact ⟨[], .done, fun earlier => rfl⟩
  | change f resume ih =>
    obtain ⟨rest, hrest, rfl⟩ := runReaction_change_eq_some.1 hrun
    obtain ⟨notes, hnotes, hnoted⟩ := ih _ hrest
    refine ⟨.changed f :: notes, .change hnotes, fun earlier => ?_⟩
    have hnotes' := hnoted (earlier ++ [Note.changed f])
    refine runReaction_change_eq_some.2 ⟨_, hnotes', ?_⟩
    simp only [map_bind, List.append_assoc, List.cons_append, List.nil_append]
  | dispatch target event state resume ih =>
    obtain ⟨dispatched, hdispatched, rest, hrest, rfl⟩ := runReaction_dispatch_eq_some.1 hrun
    obtain ⟨calls, hcalls, hcount, hinner⟩ := h hdispatched
    obtain ⟨notes, hnotes, hnoted⟩ := ih _ _ hrest
    refine ⟨_, .dispatch hcalls hnotes, fun earlier => ?_⟩
    have hcalls' := hinner (earlier ++ [Note.dispatching target event])
    have hnotes' := hnoted (earlier ++ [Note.dispatching target event] ++ calls ++
      [Note.dispatched dispatched.value.1])
    refine runReaction_dispatch_eq_some.2 ⟨_, hcalls', _, hnotes', ?_⟩
    simp only [bind_map_left, map_bind, hcount, List.append_assoc, List.cons_append,
      List.nil_append]

private theorem Dispatcher.Transcribes.callHandlers {reactions : Reactions F σ} {event : Event}
    {handlers : List F} {page : Page F σ} {out : Logged (Page F σ)}
    (hrun : callHandlers reactions dispatch event handlers page = some out) :
    ∃ calls, Transcript (.calling event handlers) page.document calls out.value.document ∧
      ∀ earlier, Dom.callHandlers reactions.noted noted event handlers (page.noting earlier) =
        some ((·.noting (earlier ++ calls)) <$> out) := by
  induction handlers generalizing page out with
  | nil =>
    cases hrun
    refine ⟨[], .allCalled, fun earlier => ?_⟩
    rw [List.append_nil]
    rfl
  | cons handler rest ih =>
    obtain ⟨called, hcalled, others, hothers, rfl⟩ := callHandlers_cons_eq_some.1 hrun
    obtain ⟨notes, hnotes, hnoted⟩ := h.runReaction hcalled
    obtain ⟨more, hmore, hmorenoted⟩ := ih hothers
    refine ⟨_, .call hnotes hmore, fun earlier => ?_⟩
    have hnotes' := hnoted (earlier ++ [Note.called handler event])
    have hmore' := hmorenoted (earlier ++ [Note.called handler event] ++ (notes ++ [Note.returned]))
    refine callHandlers_cons_eq_some.2 ⟨_, hnotes', _, hmore', ?_⟩
    simp only [bind_map_left, map_bind, List.append_assoc, List.cons_append, List.nil_append]

end

private theorem transcribes_dispatch (reactions : Reactions F σ) (nesting : Nat) :
    Dispatcher.Transcribes (dispatch reactions nesting) (dispatch reactions.noted nesting) := by
  induction nesting with
  | zero => exact fun h => nomatch h
  | succ nesting ih =>
    intro target event page out hout
    obtain ⟨called, hcalled, rfl⟩ := dispatch_succ_eq_some.1 hout
    obtain ⟨calls, hcalls, hnoted⟩ := ih.callHandlers hcalled
    refine ⟨calls, hcalls, rfl, fun earlier => ?_⟩
    refine dispatch_succ_eq_some.2 ⟨_, hnoted earlier, ?_⟩
    simp only [Functor.map_map]
    rfl

namespace Transcript

variable {d d' : Document F} {notes : List (Note F)}

private theorem outermost_append {activity : Activity F} (h : Transcript activity d notes d')
    (depth : Nat)
    (rest : List (Note F)) :
    Note.outermost (depth + 1) (notes ++ rest) = Note.outermost (depth + 1) rest := by
  induction h generalizing depth rest with
  | allCalled => rfl
  | done => rfl
  | @call event handler handlers _ _ _ notes more _ _ ihnotes ihmore =>
    change Note.outermost (depth + 2) ((notes ++ .returned :: more) ++ rest) = _
    rw [List.append_assoc, ihnotes]
    exact ihmore depth rest
  | change _ ih => exact ih depth rest
  | @dispatch target event d calls _ notes _ _ _ ihcalls ihnotes =>
    change Note.outermost (depth + 1)
      ((calls ++ .dispatched (d.handlersFor target event).length :: notes) ++ rest) = _
    rw [List.append_assoc, ihcalls]
    exact ihnotes depth rest

private theorem outermost_calling {event : Event} {handlers : List F}
    (h : Transcript (.calling event handlers) d notes d') :
    Note.outermost 0 notes = handlers.map (·, event) := by
  induction handlers generalizing d notes with
  | nil =>
    cases h
    rfl
  | cons handler rest ih =>
    cases h with
    | call hnotes hmore =>
      rw [Note.outermost, hnotes.outermost_append, Note.outermost, List.map_cons, ← ih hmore]

end Transcript

/-- If the nesting is finite, a dispatch comes to an end, and calls the handlers that were bound to
the event at the node when it began, each as often and in the order in which they were bound,
whatever they do; their number comes out. The same holds for each dispatch that happens meanwhile,
for the document of the moment at which it begins. -/
theorem dispatch_calls_snapshot {reactions : Reactions F σ} {target : NodeId} {event : Event}
    {page : Page F σ} (hfinite : Firing.NestsFinitely reactions ⟨target, event, page⟩) :
    ∃ nesting out notes,
      (∀ more, nesting ≤ more → dispatch reactions more target event page = some out ∧
        ∀ earlier, dispatch reactions.noted more target event (page.noting earlier) =
          some ((fun r => (r.1, r.2.noting (earlier ++ notes))) <$> out)) ∧
      out.value.1 = (page.document.handlersFor target event).length ∧
      Note.outermost 0 notes = (page.document.handlersFor target event).map (·, event) ∧
      Transcript (.calling event (page.document.handlersFor target event)) page.document notes
        out.value.2.document := by
  obtain ⟨out, nesting, hout⟩ := (Firing.nestsFinitely_iff _).1 hfinite
  obtain ⟨notes, hnotes, hcount, hnoted⟩ := transcribes_dispatch reactions nesting hout
  refine ⟨nesting, out, notes, fun more hmore => ⟨?_, fun earlier => ?_⟩, hcount,
    hnotes.outermost_calling, hnotes⟩
  · exact dispatch_within hmore _ _ _ _ hout
  · exact dispatch_within hmore _ _ _ _ (hnoted earlier)

/-- The handler `restless` takes all listeners of the button away, binds a new one to its clicks and
clicks it again. All handlers count their calls. -/
def restless : Reactions String Nat
  | "restless", event, state =>
    .change (fun d => return d.removeListeners 0 none) fun _ =>
      .change (fun d => return (0, (← Document.addListener 0 "click" "late" d).2)) fun _ =>
        .dispatch 0 event (state + 1) fun _ state => .done state
  | _, _, state => .done (state + 1)

def buttonPage : Page String Nat where
  document.nodes := #[.element {
    tag := "button"
    listeners := [⟨"click", "restless"⟩, ⟨"keydown", "other"⟩, ⟨"click", "last"⟩] }]
  state := 0

theorem dispatch_calls_snapshot_restless :
    ∃ nesting out notes, dispatch restless nesting 0 ⟨"click"⟩ buttonPage = some out ∧
      out.value.1 = 2 ∧ out.value.2.state = 3 ∧
      Note.outermost 0 notes = [("restless", ⟨"click"⟩), ("last", ⟨"click"⟩)] ∧
      Transcript (.calling ⟨"click"⟩ ["restless", "last"]) buttonPage.document notes
        out.value.2.document := by
  have hruns : ∃ out, dispatch restless 2 0 ⟨"click"⟩ buttonPage = some out ∧
      out.value.2.state = 3 := ⟨_, rfl, rfl⟩
  obtain ⟨out, hout, hstate⟩ := hruns
  have hfinite : Firing.NestsFinitely restless ⟨0, ⟨"click"⟩, buttonPage⟩ :=
    (Firing.nestsFinitely_iff _).2 ⟨out, 2, hout⟩
  obtain ⟨nesting, out', notes, hends, hcount, houtermost, htranscript⟩ :=
    dispatch_calls_snapshot hfinite
  have hends' := (hends nesting (Nat.le_refl _)).1
  cases dispatch_unique hout hends'
  exact ⟨nesting, out, notes, hends', hcount, hstate, houtermost, htranscript⟩

end TreeRender.Dom
