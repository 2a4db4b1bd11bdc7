import TreeRender.Proofs.Containment.Replace
import TreeRender.Proofs.Evaluation

/-!
# Calls under new names

Pure functions do the same whatever was counted before, and they do it under any name. So a
component that stands in a tree whose failures are replaced is called with the same end as in the
tree itself, and returns the same node with its failures replaced.
-/

namespace TreeRender

variable {F G : Type}

variable {α γ α' γ' : Type}

/-- Calls of pure functions that come to what `g` makes of the result of others, and leave the same
error pending, whatever was counted before. -/
def Calls.Matches (g : α → γ) (x : Calls Unit α) (y : Calls Unit γ) : Prop :=
  ∀ s t : Scene Unit, t.pending = s.pending →
    (y.exec t).1 = g (x.exec s).1 ∧ (y.exec t).2.pending = (x.exec s).2.pending

namespace Calls.Matches

variable {g : α → γ} {g' : α' → γ'} {x : Calls Unit α} {y : Calls Unit γ}

theorem pure (a : α) : Calls.Matches g (pure a) (pure (g a)) := fun _ _ h => ⟨rfl, h⟩

theorem bind {f : α → Calls Unit α'} {f' : γ → Calls Unit γ'} (hx : x.Matches g y)
    (hf : ∀ a, (f a).Matches g' (f' (g a))) : (x >>= f).Matches g' (y >>= f') := by
  intro s t h
  obtain ⟨hresult, hpending⟩ := hx s t h
  rw [exec_bind, exec_bind, hresult]
  exact hf _ _ _ hpending

private theorem unlessPending {g : Node F → Node G} {x : Calls Unit (Node F)}
    {y : Calls Unit (Node G)}
    (hempty : g .empty = .empty) (h : x.Matches g y) :
    (unlessPending x).Matches g (unlessPending y) := by
  intro s t hst
  rw [exec_unlessPending, exec_unlessPending, hst]
  by_cases hp : s.pending.isSome
  · rw [if_pos hp, if_pos hp]
    exact ⟨hempty.symm, hst⟩
  · rw [if_neg hp, if_neg hp]
    exact h s t hst

private theorem result_eq (h : x.Matches g y) (hg : Function.Injective g) {s s' : Scene Unit}
    (hpending : s.pending = s'.pending) : (x.exec s).1 = (x.exec s').1 :=
  hg ((h s s' hpending.symm).1.symm.trans (h s' s' rfl).1)

end Calls.Matches

section

variable {program : Program F Unit} {config : Config} {resolve below : Node F → Calls Unit (Node F)}
  {resolve' below' : Node (Placed F) → Calls Unit (Node (Placed F))}
  {g : Node F → Node (Placed F)}

private theorem matches_runScript
    (hr : ∀ n, (resolve n).Matches (Node.rename .free) (resolve' (n.rename .free)))
    (script : Script F Unit) :
    (runScript resolve script).Matches (Except.map g) (runScript resolve' (script.placed g)) := by
  intro s t h
  induction script generalizing s t with
  | finish outcome => exact ⟨rfl, h⟩
  | resolve request resume ih =>
    obtain ⟨hresult, hpending⟩ := hr request.value.1 { s with state := request.value.2 }
      { t with state := request.value.2 } h
    have hback : ((resolve' (request.value.1.rename .free)).exec
        { t with state := request.value.2 }).1.rename Placed.function =
          ((resolve request.value.1).exec { s with state := request.value.2 }).1 := by
      rw [hresult]
      exact Node.rename_back (fun _ => rfl) _
    rw [exec_runScript_resolve, Script.placed, exec_runScript_resolve]
    simp only [Logged.value_map, hback]
    exact ih _ _ _ _ hpending

theorem matches_invoke (place : F → Placed F) (hfunction : ∀ name, (place name).function = name)
    (hreturned : ∀ name, program.returned config (place name) = g)
    (hr : ∀ n, (resolve n).Matches (Node.rename .free) (resolve' (n.rename .free))) (depth : Nat)
    (c : Component F) :
    (invoke program config resolve depth c).Matches (Except.map g)
      (invoke (program.placed config) config resolve' depth (c.rename place)) := by
  have called : (callComponent program config resolve depth c).Matches (Except.map g)
      (callComponent (program.placed config) config resolve' depth (c.rename place)) := by
    intro s t h
    cases c with
    | producer name =>
      rw [Component.rename, exec_callComponent_producer, exec_callComponent_producer]
      simp only [Program.placed, Logged.value_map, hfunction, hreturned]
      exact ⟨trivial, h⟩
    | provider name =>
      rw [Component.rename, exec_callComponent_provider, exec_callComponent_provider]
      simp only [Program.placed, hfunction, hreturned]
      exact matches_runScript hr _ s t h
  intro s t h
  obtain ⟨hresult, hpending⟩ := called (s.enterCall depth) (t.enterCall depth) h
  rw [exec_invoke, exec_invoke]
  generalize (callComponent program config resolve depth c).exec (s.enterCall depth) = p
    at hresult hpending ⊢
  generalize (callComponent (program.placed config) config resolve' depth (c.rename place)).exec
    (t.enterCall depth) = q at hresult hpending ⊢
  obtain ⟨outcome, u⟩ := p
  obtain ⟨outcome', u'⟩ := q
  subst hresult
  cases hp : u.pending with
  | some e =>
    have hp' : u'.pending = some e := hpending.trans hp
    simp only [hp, hp']
    exact ⟨rfl, trivial⟩
  | none =>
    have hp' : u'.pending = none := hpending.trans hp
    cases outcome <;> simp only [hp, hp', Except.map, Scene.countError] <;> exact ⟨trivial, trivial⟩

private theorem matches_resolveFailed (e : RenderError) :
    (resolveFailed config e : Calls Unit (Node F)).Matches (Node.rename Placed.free)
      (resolveFailed config e) := by
  intro s t h
  rw [exec_resolveFailed, exec_resolveFailed]
  cases e with
  | failed cause =>
    cases config.throwOnError with
    | true => exact ⟨rfl, congrArg (Option.or · _) h⟩
    | false => exact ⟨rfl, h⟩
  | _ => exact ⟨rfl, congrArg (Option.or · _) h⟩

private theorem matches_resolveMembers {depth : Nat} (nodes : List (Node F))
    (h : ∀ n ∈ nodes, (resolveLevel program config below depth n).Matches (Node.rename .free)
      (resolveLevel (program.placed config) config below' depth (n.rename .free))) :
    (resolveMembers program config below depth nodes).Matches (List.map (Node.rename .free))
      (resolveMembers (program.placed config) config below' depth
        (nodes.map (Node.rename .free))) := by
  induction nodes with
  | nil => exact .pure _
  | cons n rest ih =>
    apply Calls.Matches.bind (h n (by simp))
    intro resolved
    apply Calls.Matches.bind (ih fun m hm => h m (by simp [hm]))
    exact fun others => .pure (resolved :: others)

private theorem matches_resolveLevel
    (hb : ∀ n, (below n).Matches (Node.rename .free) (below' (n.rename .free))) (depth : Nat)
    (node : Node F) :
    (resolveLevel program config below depth node).Matches (Node.rename .free)
      (resolveLevel (program.placed config) config below' depth (node.rename .free)) := by
  induction node using Node.inductOn with
  | empty => exact .unlessPending rfl (.pure _)
  | text value => exact .unlessPending rfl (.pure _)
  | component c =>
    have invoked : (invoke program config below depth c).Matches (Except.map (Node.rename .free))
        (invoke (program.placed config) config below' depth (c.rename .free)) :=
      matches_invoke .free (fun _ => rfl) (fun _ => rfl) hb depth c
    refine .unlessPending rfl (invoked.bind ?_)
    intro outcome
    cases outcome with
    | ok node => exact hb node
    | error e => exact matches_resolveFailed e
  | collection nodes ih =>
    rw [Node.rename_collection]
    refine .unlessPending rfl ((matches_resolveMembers nodes ih).bind fun resolved => ?_)
    rw [← Node.rename_collection]
    exact .pure _
  | element e _ =>
    rw [Node.rename_element]
    apply Calls.Matches.unlessPending rfl
    cases hchildren : e.children with
    | none =>
      have hself : Node.element (e.rename Placed.free (none : Option (Node (Placed F)))) =
          (Node.element e).rename .free := by
        rw [Node.rename_element, hchildren]
        rfl
      change Calls.Matches _ _ (pure (Node.element (e.rename Placed.free none)))
      rw [hself]
      exact .pure _
    | some child =>
      apply (hb child).bind
      intro resolved
      rw [← Node.rename_withChild]
      exact .pure _

private theorem matches_resolveFrom (levels depth : Nat) (node : Node F) :
    (resolveFrom program config levels depth node).Matches (Node.rename .free)
      (resolveFrom (program.placed config) config levels depth (node.rename .free)) := by
  induction levels generalizing depth node with
  | zero =>
    apply Calls.Matches.unlessPending rfl
    exact fun s t h => ⟨rfl, congrArg (Option.or · _) h⟩
  | succ levels ih => exact matches_resolveLevel (ih (depth + 1)) depth node

variable (program config) in
theorem result_invoke (levels depth : Nat) (c : Component F) {s s' : Scene Unit}
    (h : s.pending = s'.pending) :
    ((invoke program config (resolveFrom program config levels (depth + 1)) depth c).exec s).1 =
      ((invoke program config (resolveFrom program config levels (depth + 1)) depth c).exec
        s').1 := by
  have hinjective : Function.Injective
      (Except.map (ε := RenderError) (Node.rename (F := F) Placed.free)) := by
    intro a b hab
    have hback (x : Except RenderError (Node F)) :
        (x.map (Node.rename Placed.free)).map (Node.rename Placed.function) = x := by
      cases x with
      | error e => rfl
      | ok node => exact congrArg Except.ok (node.rename_back fun _ => rfl)
    rw [← hback a, hab, hback]
  -- Both calls go as one and the same call under free names, so they go alike.
  have hmatches : Calls.Matches (Except.map (Node.rename Placed.free))
      (invoke program config (resolveFrom program config levels (depth + 1)) depth c) _ :=
    matches_invoke .free (fun _ => rfl) (fun _ => rfl) (matches_resolveFrom levels (depth + 1))
      depth c
  exact hmatches.result_eq hinjective h

/-- An evaluation ends with a failed function if the component called fails, or if it gives another
one whose evaluation ends so. -/
theorem evaluateFrom_failed_iff {levels depth : Nat} {c : Component F} {cause : CallError}
    {s : Scene Unit} :
    ((evaluateFrom program config levels depth c).exec s).1 = .error (.failed cause) ↔
      let called := (invoke program config (resolveFrom program config levels (depth + 1)) depth
        c).exec s
      called.1 = .error (.failed cause) ∨ ∃ below next, levels = below + 1 ∧
        called.1 = .ok (.component next) ∧
        ((evaluateFrom program config below (depth + 1) next).exec called.2).1 =
          .error (.failed cause) := by
  cases levels with
  | zero =>
    rw [evaluateFrom, Calls.exec_bind]
    generalize (invoke program config _ depth c).exec s = called
    obtain ⟨e | node, u⟩ := called
    · simp
    · cases node <;> simp [Config.depthError]
  | succ levels =>
    rw [evaluateFrom, Calls.exec_bind]
    generalize (invoke program config _ depth c).exec s = called
    obtain ⟨e | node, u⟩ := called
    · simp
    · cases node <;> simp

theorem failsAt_iff {depth : Nat} {c : Component F} : program.failsAt config depth c = true ↔
    ∃ cause, ((evaluate program config depth c).exec { state := () }).1 =
      .error (.failed cause) := by
  unfold Program.failsAt
  generalize ((evaluate program config depth c).exec { state := () }).1 = result
  rcases result with e | r
  · cases e <;> simp
  · simp

theorem evaluate_eq {levels depth : Nat} (hdepth : depth + levels = config.maxDepth)
    (c : Component F) :
    evaluate program config depth c = evaluateFrom program config levels depth c := by
  have hlevels : config.levelsAt (depth + 1) = levels := by
    unfold Config.levelsAt
    omega
  rw [evaluate, hlevels]

theorem invoke_ne_failed {levels depth : Nat} (hdepth : depth + levels = config.maxDepth)
    {c : Component F} (h : program.failsAt config depth c = false) {s : Scene Unit}
    (hs : s.pending = none) (cause : CallError) :
    ((invoke program config (resolveFrom program config levels (depth + 1)) depth c).exec s).1 ≠
      .error (.failed cause) := by
  intro hfailed
  have hstart : s.pending = ({ state := () } : Scene Unit).pending := hs
  rw [result_invoke program config levels depth c hstart] at hfailed
  have hfails : program.failsAt config depth c = true := by
    refine failsAt_iff.2 ⟨cause, ?_⟩
    rw [evaluate_eq hdepth]
    exact evaluateFrom_failed_iff.2 (.inl hfailed)
  rw [h] at hfails
  cases hfails

variable (program) in
theorem matches_standing {levels depth : Nat} (hdepth : depth + levels = config.maxDepth)
    (c : Component F) :
    Calls.Matches (Except.map (program.replaceFrom config levels (depth + 1)))
      (invoke program config (resolveFrom program config levels (depth + 1)) depth c)
      (invoke (program.placed config) config
        (resolveFrom (program.placed config) config levels (depth + 1)) depth
        (c.rename (.standing depth))) := by
  have hlevels : config.levelsAt (depth + 1) = levels := by
    unfold Config.levelsAt
    omega
  refine matches_invoke (.standing depth) (fun _ => rfl) (fun _ => ?_)
    (matches_resolveFrom levels (depth + 1)) depth c
  rw [Program.returned]
  unfold Program.replace
  rw [hlevels]

end

end TreeRender
