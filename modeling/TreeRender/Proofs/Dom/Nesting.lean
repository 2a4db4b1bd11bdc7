import TreeRender.Dom.Events

/-!
# Dispatches inside of each other

A handler that is called may dispatch events itself, and so may the handlers that these call. If no
chain of dispatches, each inside of the one before, goes on forever, some nesting suffices for all
of them; and more than that changes nothing.
-/

namespace TreeRender.Dom

variable {F σ : Type}

abbrev Dispatcher (F σ : Type) := NodeId → Event → Page F σ → Option (Logged (Nat × Page F σ))

section

variable {dispatch : Dispatcher F σ} {reactions : Reactions F σ} {d : Document F}

theorem runReaction_change_eq_some {f : Document F → Logged (Nat × Document F)}
    {resume : Nat → Reaction F σ} {out : Logged (Page F σ)} :
    runReaction dispatch (.change f resume) d = some out ↔
      ∃ rest, runReaction dispatch (resume (f d).value.1) (f d).value.2 = some rest ∧
        (f d >>= fun _ => rest) = out :=
  Option.map_eq_some_iff

theorem runReaction_dispatch_eq_some {target : NodeId} {event : Event} {state : σ}
    {resume : Nat → σ → Reaction F σ} {out : Logged (Page F σ)} :
    runReaction dispatch (.dispatch target event state resume) d = some out ↔
      ∃ dispatched, dispatch target event { document := d, state } = some dispatched ∧
      ∃ rest, runReaction dispatch (resume dispatched.value.1 dispatched.value.2.state)
          dispatched.value.2.document = some rest ∧ (dispatched >>= fun _ => rest) = out := by
  rw [runReaction]
  cases dispatch target event { document := d, state } with
  | none => simp only [reduceCtorEq, false_and, exists_false]
  | some dispatched => simp only [Option.map_eq_some_iff, Option.some.injEq, exists_eq_left']

theorem callHandlers_cons_eq_some {event : Event} {handler : F} {rest : List F} {page : Page F σ}
    {out : Logged (Page F σ)} :
    callHandlers reactions dispatch event (handler :: rest) page = some out ↔
      ∃ called, runReaction dispatch (reactions handler event page.state) page.document =
        some called ∧
      ∃ others, callHandlers reactions dispatch event rest called.value = some others ∧
        (called >>= fun _ => others) = out := by
  rw [callHandlers]
  cases runReaction dispatch (reactions handler event page.state) page.document with
  | none => simp only [reduceCtorEq, false_and, exists_false]
  | some called => simp only [Option.map_eq_some_iff, Option.some.injEq, exists_eq_left']

end

theorem dispatch_succ_eq_some {reactions : Reactions F σ} {nesting : Nat} {target : NodeId}
    {event : Event} {page : Page F σ} {out : Logged (Nat × Page F σ)} :
    dispatch reactions (nesting + 1) target event page = some out ↔
      ∃ called, callHandlers reactions (dispatch reactions nesting) event
          (page.document.handlersFor target event) page = some called ∧
        (((page.document.handlersFor target event).length, ·) <$> called) = out := by
  rw [dispatch, Option.map_eq_some_iff]
  rfl

/-- What comes out of one way to dispatch events comes out of another one. -/
def Dispatcher.Within (dispatch dispatch' : Dispatcher F σ) : Prop :=
  ∀ target event page out, dispatch target event page = some out →
    dispatch' target event page = some out

section

variable {dispatch dispatch' : Dispatcher F σ} (h : Dispatcher.Within dispatch dispatch')

include h

theorem Dispatcher.Within.runReaction {r : Reaction F σ} {d : Document F}
    {out : Logged (Page F σ)} (hrun : runReaction dispatch r d = some out) :
    Dom.runReaction dispatch' r d = some out := by
  induction r generalizing d out with
  | done state => exact hrun
  | change f resume ih =>
    obtain ⟨rest, hrest, hout⟩ := runReaction_change_eq_some.1 hrun
    exact runReaction_change_eq_some.2 ⟨rest, ih _ hrest, hout⟩
  | dispatch target event state resume ih =>
    obtain ⟨dispatched, hdispatched, rest, hrest, hout⟩ := runReaction_dispatch_eq_some.1 hrun
    exact runReaction_dispatch_eq_some.2
      ⟨dispatched, h _ _ _ _ hdispatched, rest, ih _ _ hrest, hout⟩

private theorem Dispatcher.Within.callHandlers {reactions : Reactions F σ} {event : Event}
    {handlers : List F} {page : Page F σ} {out : Logged (Page F σ)}
    (hrun : callHandlers reactions dispatch event handlers page = some out) :
    Dom.callHandlers reactions dispatch' event handlers page = some out := by
  induction handlers generalizing page out with
  | nil => exact hrun
  | cons handler rest ih =>
    obtain ⟨called, hcalled, others, hothers, hout⟩ := callHandlers_cons_eq_some.1 hrun
    exact callHandlers_cons_eq_some.2 ⟨called, h.runReaction hcalled, others, ih hothers, hout⟩

end

variable {reactions : Reactions F σ}

private theorem dispatch_within_succ (nesting : Nat) :
    Dispatcher.Within (dispatch reactions nesting) (dispatch reactions (nesting + 1)) := by
  induction nesting with
  | zero => exact fun _ _ _ _ h => nomatch h
  | succ nesting ih =>
    intro target event page out hout
    obtain ⟨called, hcalled, heq⟩ := dispatch_succ_eq_some.1 hout
    exact dispatch_succ_eq_some.2 ⟨called, ih.callHandlers hcalled, heq⟩

theorem dispatch_within {nesting nesting' : Nat} (h : nesting ≤ nesting') :
    Dispatcher.Within (dispatch reactions nesting) (dispatch reactions nesting') := by
  induction h with
  | refl => exact fun _ _ _ _ hout => hout
  | step _ ih => exact fun _ _ _ _ hout => dispatch_within_succ _ _ _ _ _ (ih _ _ _ _ hout)

private theorem runReaction_unique {nesting nesting' : Nat} {r : Reaction F σ} {d : Document F}
    {out out' : Logged (Page F σ)} (h : runReaction (dispatch reactions nesting) r d = some out)
    (h' : runReaction (dispatch reactions nesting') r d = some out') : out = out' := by
  have hmore := (dispatch_within (Nat.le_max_left nesting nesting')).runReaction h
  have hmore' := (dispatch_within (Nat.le_max_right nesting nesting')).runReaction h'
  exact Option.some.inj (hmore.symm.trans hmore')

theorem dispatch_unique {nesting nesting' : Nat} {target : NodeId} {event : Event} {page : Page F σ}
    {out out' : Logged (Nat × Page F σ)}
    (h : dispatch reactions nesting target event page = some out)
    (h' : dispatch reactions nesting' target event page = some out') : out = out' := by
  have hmore := dispatch_within (Nat.le_max_left nesting nesting') _ _ _ _ h
  have hmore' := dispatch_within (Nat.le_max_right nesting nesting') _ _ _ _ h'
  exact Option.some.inj (hmore.symm.trans hmore')

structure Firing (F σ : Type) where
  target : NodeId
  event : Event
  page : Page F σ

def Firing.Gives (reactions : Reactions F σ) (x : Firing F σ) (out : Logged (Nat × Page F σ)) :
    Prop :=
  ∃ nesting, dispatch reactions nesting x.target x.event x.page = some out

/-- While a handler is called, an event is dispatched: those before have come to an end. -/
inductive Reaction.Fires (reactions : Reactions F σ) (x : Firing F σ) :
    Reaction F σ → Document F → Prop
  | change {f resume d} : Fires reactions x (resume (f d).value.1) (f d).value.2 →
    Fires reactions x (.change f resume) d
  | here {resume} :
    Fires reactions x (.dispatch x.target x.event x.page.state resume) x.page.document
  | later {target event state resume d out} :
    Firing.Gives reactions ⟨target, event, { document := d, state }⟩ out →
    Fires reactions x (resume out.value.1 out.value.2.state) out.value.2.document →
    Fires reactions x (.dispatch target event state resume) d

/-- While handlers are called one after the other, an event is dispatched by one of them. -/
inductive CallsFire (reactions : Reactions F σ) (x : Firing F σ) (event : Event) :
    List F → Page F σ → Prop
  | here {handler rest page} :
    (reactions handler event page.state).Fires reactions x page.document →
    CallsFire reactions x event (handler :: rest) page
  | later {handler rest page nesting called} :
    runReaction (dispatch reactions nesting) (reactions handler event page.state) page.document =
      some called →
    CallsFire reactions x event rest called.value →
    CallsFire reactions x event (handler :: rest) page

namespace Firing

/-- While the event `y` is dispatched, one of the handlers that it calls dispatches `x`. -/
def Inside (reactions : Reactions F σ) (x y : Firing F σ) : Prop :=
  CallsFire reactions x y.event (y.page.document.handlersFor y.target y.event) y.page

/-- There are no infinitely many dispatches each inside of the one before. -/
def NestsFinitely (reactions : Reactions F σ) (x : Firing F σ) : Prop :=
  Acc (Inside reactions) x

end Firing

private theorem exists_runReaction {r : Reaction F σ} {d : Document F}
    (h : ∀ x, r.Fires reactions x d → ∃ out, x.Gives reactions out) :
    ∃ nesting out, runReaction (dispatch reactions nesting) r d = some out := by
  induction r generalizing d with
  | done state => exact ⟨0, _, rfl⟩
  | change f resume ih =>
    obtain ⟨nesting, rest, hrest⟩ := ih _ fun x hx => h x (.change hx)
    exact ⟨nesting, _, runReaction_change_eq_some.2 ⟨rest, hrest, rfl⟩⟩
  | dispatch target event state resume ih =>
    obtain ⟨dispatched, hgives⟩ := h ⟨target, event, { document := d, state }⟩ .here
    obtain ⟨nesting, rest, hrest⟩ := ih _ _ fun x hx => h x (.later hgives hx)
    obtain ⟨nesting', hdispatched⟩ := hgives
    refine ⟨max nesting nesting', _, runReaction_dispatch_eq_some.2 ⟨dispatched, ?_, rest, ?_, rfl⟩⟩
    · exact dispatch_within (Nat.le_max_right nesting nesting') _ _ _ _ hdispatched
    · exact (dispatch_within (Nat.le_max_left nesting nesting')).runReaction hrest

private theorem exists_callHandlers {event : Event} {handlers : List F} {page : Page F σ}
    (h : ∀ x, CallsFire reactions x event handlers page → ∃ out, x.Gives reactions out) :
    ∃ nesting out,
      callHandlers reactions (dispatch reactions nesting) event handlers page = some out := by
  induction handlers generalizing page with
  | nil => exact ⟨0, _, rfl⟩
  | cons handler rest ih =>
    obtain ⟨nesting, called, hcalled⟩ := exists_runReaction fun x hx => h x (.here hx)
    obtain ⟨nesting', others, hothers⟩ := ih fun x hx => h x (.later hcalled hx)
    refine ⟨max nesting nesting', _, callHandlers_cons_eq_some.2 ⟨called, ?_, others, ?_, rfl⟩⟩
    · exact (dispatch_within (Nat.le_max_left nesting nesting')).runReaction hcalled
    · exact (dispatch_within (Nat.le_max_right nesting nesting')).callHandlers hothers

private theorem Reaction.Fires.gives {x : Firing F σ} {r : Reaction F σ} {d : Document F}
    (h : r.Fires reactions x d) {nesting : Nat} {out : Logged (Page F σ)}
    (hrun : runReaction (Dom.dispatch reactions nesting) r d = some out) :
    ∃ out, Dom.dispatch reactions nesting x.target x.event x.page = some out := by
  induction h generalizing out with
  | change _ ih =>
    obtain ⟨rest, hrest, -⟩ := runReaction_change_eq_some.1 hrun
    exact ih hrest
  | here =>
    obtain ⟨dispatched, hdispatched, -⟩ := runReaction_dispatch_eq_some.1 hrun
    exact ⟨dispatched, hdispatched⟩
  | later hgives _ ih =>
    obtain ⟨dispatched, hdispatched, rest, hrest, -⟩ := runReaction_dispatch_eq_some.1 hrun
    obtain ⟨nesting', hgiven⟩ := hgives
    cases dispatch_unique hdispatched hgiven
    exact ih hrest

private theorem CallsFire.gives {x : Firing F σ} {event : Event} {handlers : List F}
    {page : Page F σ}
    (h : CallsFire reactions x event handlers page) {nesting : Nat} {out : Logged (Page F σ)}
    (hrun : callHandlers reactions (dispatch reactions nesting) event handlers page = some out) :
    ∃ out, dispatch reactions nesting x.target x.event x.page = some out := by
  induction h generalizing out with
  | here hfires =>
    obtain ⟨called, hcalled, -⟩ := callHandlers_cons_eq_some.1 hrun
    exact hfires.gives hcalled
  | later hran _ ih =>
    obtain ⟨called, hcalled, others, hothers, -⟩ := callHandlers_cons_eq_some.1 hrun
    cases runReaction_unique hcalled hran
    exact ih hothers

/-- A dispatch comes to an end exactly if the nesting is finite. -/
theorem Firing.nestsFinitely_iff (x : Firing F σ) :
    x.NestsFinitely reactions ↔ ∃ out, x.Gives reactions out := by
  constructor
  · intro h
    induction h with
    | intro x _ ih =>
      obtain ⟨nesting, called, hcalled⟩ := exists_callHandlers ih
      exact ⟨_, nesting + 1, dispatch_succ_eq_some.2 ⟨called, hcalled, rfl⟩⟩
  · rintro ⟨out, nesting, hout⟩
    induction nesting generalizing x out with
    | zero => cases hout
    | succ nesting ih =>
      obtain ⟨called, hcalled, -⟩ := dispatch_succ_eq_some.1 hout
      refine .intro x fun y hy => ?_
      obtain ⟨inner, hinner⟩ := CallsFire.gives hy hcalled
      exact ih y inner hinner

end TreeRender.Dom
