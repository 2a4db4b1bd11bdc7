import TreeRender.Proofs.Scoped.Resolved

/-!
# Resolved trees are settled

A provider that has a tree resolved gets one without components: each was replaced by what it comes
to, or by nothing if it failed, and all else is as it was. What is left sits no deeper than where it
was resolved, so if nothing fatal happened, resolving it again goes over it and does nothing.
-/

namespace TreeRender

variable {F σ τ : Type}

inductive Node.ComponentFree : Node F → Prop
  | empty : ComponentFree .empty
  | text (value) : ComponentFree (.text value)
  | collection {nodes} : (∀ n ∈ nodes, ComponentFree n) → ComponentFree (.collection nodes)
  | element {e : Element F (Node F)} : (∀ n, e.children = some n → ComponentFree n) →
    ComponentFree (.element e)

/-- No component occurs anywhere, and resolving takes at most so many levels. -/
inductive Node.Settled : Nat → Node F → Prop
  | empty {levels} : Settled (levels + 1) .empty
  | text {levels} (value) : Settled (levels + 1) (.text value)
  | collection {levels nodes} : (∀ n ∈ nodes, Settled (levels + 1) n) →
    Settled (levels + 1) (.collection nodes)
  | element {levels} {e : Element F (Node F)} : (∀ n, e.children = some n → Settled levels n) →
    Settled (levels + 1) (.element e)

private theorem Node.Settled.succ {levels : Nat} {node : Node F} (h : node.Settled levels) :
    node.Settled (levels + 1) := by
  induction h with
  | empty => exact .empty
  | text value => exact .text value
  | collection _ ih => exact .collection ih
  | element _ ih => exact .element ih

private theorem Element.withChild_self {e : Element F (Node F)} {child : Node F}
    (hc : e.children = some child) : e.withChild child = e := by
  rw [Element.withChild, ← hc]

section

variable (program : Program F σ) (config : Config)

/-- Some call of a component, at whatever depth and in whatever state, has this outcome. -/
def Component.MayGive (c : Component F) (outcome : Except RenderError (Node F)) : Prop :=
  ∃ levels depth s, ((invoke program config (resolveFrom program config levels (depth + 1)) depth
    c).exec s).1 = outcome

/-- A tree and what it is resolved to. Components are replaced by what they come to, or by nothing
if they fail. Other nodes stay, unless something `fatal` happens, and elements keep all but their
children. -/
inductive Resolution (fatal : Prop) : Node F → Node F → Prop
  | dropped (node) : fatal → Resolution fatal node .empty
  | failed {c cause} : c.MayGive program config (.error (.failed cause)) →
    Resolution fatal (.component c) .empty
  | returned {c node result} : c.MayGive program config (.ok node) →
    Resolution fatal node result → Resolution fatal (.component c) result
  | empty : Resolution fatal .empty .empty
  | text (value) : Resolution fatal (.text value) (.text value)
  | nil : Resolution fatal (.collection []) (.collection [])
  | cons {n result nodes results} : Resolution fatal n result →
    Resolution fatal (.collection nodes) (.collection results) →
    Resolution fatal (.collection (n :: nodes)) (.collection (result :: results))
  | childless {e : Element F (Node F)} : e.children = none →
    Resolution fatal (.element e) (.element e)
  | element {e : Element F (Node F)} {child result} : e.children = some child →
    Resolution fatal child result → Resolution fatal (.element e) (.element (e.withChild result))

end

section

variable {program : Program F σ} {config : Config} {fatal : Prop} {node result : Node F}

theorem Resolution.mono {later : Prop} (h : Resolution program config fatal node result)
    (himp : fatal → later) : Resolution program config later node result := by
  induction h with
  | dropped node hfatal => exact .dropped node (himp hfatal)
  | failed hfails => exact .failed hfails
  | returned hreturns _ ih => exact .returned hreturns ih
  | empty => exact .empty
  | text value => exact .text value
  | nil => exact .nil
  | cons _ _ ihn ih => exact .cons ihn ih
  | childless hc => exact .childless hc
  | element hc _ ih => exact .element hc ih

private theorem Resolution.componentFree (h : Resolution program config fatal node result) :
    result.ComponentFree := by
  induction h with
  | dropped | failed | empty => exact .empty
  | returned _ _ ih => exact ih
  | text value => exact .text value
  | nil => exact .collection (by simp)
  | cons _ _ ihn ih =>
    cases ih with
    | collection members => exact .collection (List.forall_mem_cons.2 ⟨ihn, members⟩)
  | childless hc => exact .element fun n hn => nomatch hc.symm.trans hn
  | element _ _ ih =>
    apply Node.ComponentFree.element
    rintro n ⟨⟩
    exact ih

end

section

variable (program : Program F σ) (config : Config)

/-- What resolving `node` comes to, which is a tree with the scene that is left. Unless an error is
pending then, the tree is settled. -/
def ResolvesWithin (levels : Nat) (node : Node F) (resolved : Node F × Scene σ) : Prop :=
  Resolution program config (resolved.2.pending.isSome = true) node resolved.1 ∧
    (resolved.2.pending = none → resolved.1.Settled levels)

variable {program config} {levels depth : Nat}

private theorem resolvesWithin_unlessPending {node : Node F} {x : Calls σ (Node F)}
    (h : ∀ s : Scene σ, s.pending = none → ResolvesWithin program config levels node (x.exec s))
    (s : Scene σ) : ResolvesWithin program config levels node ((unlessPending x).exec s) := by
  rw [exec_unlessPending]
  cases hs : s.pending with
  | some e =>
    rw [Option.isSome_some, if_pos rfl]
    exact ⟨.dropped node (by rw [hs]; rfl), fun hnone => nomatch hs.symm.trans hnone⟩
  | none =>
    rw [Option.isSome_none, if_neg Bool.false_ne_true]
    exact h s hs

private theorem resolvesWithin_resolveFailed {c : Component F} {e : RenderError}
    (hfails : c.MayGive program config (.error e)) {s : Scene σ} (hs : s.pending = none) :
    ResolvesWithin program config (levels + 1) (.component c)
      ((resolveFailed config e).exec s) := by
  rw [exec_resolveFailed]
  have hpostponed : (s.postpone e).pending = some e := by
    rw [Scene.postpone, hs]
    rfl
  cases e with
  | failed cause => exact ⟨.failed hfails, fun _ => .empty⟩
  | _ => exact ⟨.dropped _ (by rw [hpostponed]; rfl), fun _ => .empty⟩

private theorem resolvesWithin_members {nodes : List (Node F)}
    (h : ∀ n ∈ nodes, ∀ s : Scene σ, ResolvesWithin program config (levels + 1) n
      ((resolveLevel program config (resolveFrom program config levels (depth + 1)) depth n).exec s))
    (s : Scene σ) :
    let resolved := (resolveMembers program config (resolveFrom program config levels (depth + 1))
      depth nodes).exec s
    ResolvesWithin program config (levels + 1) (.collection nodes)
      (.collection resolved.1, resolved.2) := by
  induction nodes generalizing s with
  | nil => exact ⟨.nil, fun _ => .collection nofun⟩
  | cons n rest ih =>
    obtain ⟨hfirst, hfits⟩ := h n (by simp) s
    simp only [resolveMembers, Calls.exec_bind, Calls.exec_pure]
    generalize (resolveLevel program config (resolveFrom program config levels (depth + 1)) depth
      n).exec s = p at hfirst hfits ⊢
    obtain ⟨result, t⟩ := p
    obtain ⟨hrest, hfits'⟩ := ih (fun m hm => h m (List.mem_cons_of_mem n hm)) t
    have hpending (e : RenderError) (ht : t.pending = some e) :
        ((resolveMembers program config (resolveFrom program config levels (depth + 1)) depth
          rest).exec t).2 = t := exec_resolveMembers_pending ht levels depth rest
    generalize (resolveMembers program config (resolveFrom program config levels (depth + 1)) depth
      rest).exec t = q at hrest hfits' hpending ⊢
    obtain ⟨results, u⟩ := q
    dsimp only at hfirst hfits hrest hfits' hpending ⊢
    cases ht : t.pending with
    | some e =>
      obtain rfl := hpending e ht
      exact ⟨.cons hfirst hrest, fun hnone => absurd (ht.symm.trans hnone) (Option.some_ne_none e)⟩
    | none =>
      refine ⟨.cons (hfirst.mono fun hsome => ?_) hrest, fun hnone => ?_⟩
      · rw [ht] at hsome
        cases hsome
      · cases hfits' hnone with
        | collection members =>
          exact .collection (List.forall_mem_cons.2 ⟨hfits ht, members⟩)

private theorem resolvesWithin_resolveFrom (levels depth : Nat) (node : Node F) (s : Scene σ) :
    ResolvesWithin program config levels node
      ((resolveFrom program config levels depth node).exec s) := by
  induction levels generalizing depth node s with
  | zero =>
    refine resolvesWithin_unlessPending (fun s hs => ?_) s
    have hpostponed : (s.postpone (config.depthError depth)).pending =
        some (config.depthError depth) := by
      rw [Scene.postpone, hs]
      rfl
    exact ⟨.dropped node (Option.isSome_iff_exists.2 ⟨_, hpostponed⟩),
      fun hnone => nomatch hpostponed.symm.trans hnone⟩
  | succ levels ih =>
    rw [resolveFrom]
    induction node using Node.inductOn generalizing s with
    | empty => exact resolvesWithin_unlessPending (fun _ _ => ⟨.empty, fun _ => .empty⟩) s
    | text value => exact resolvesWithin_unlessPending (fun _ _ => ⟨.text value, fun _ => .text value⟩) s
    | component c =>
      refine resolvesWithin_unlessPending (fun s hs => ?_) s
      have hgives : c.MayGive program config ((invoke program config
          (resolveFrom program config levels (depth + 1)) depth c).exec s).1 :=
        ⟨levels, depth, s, rfl⟩
      have hnone := pending_invoke program config (resolveFrom program config levels (depth + 1))
        depth c s
      rw [Calls.exec_bind]
      generalize (invoke program config (resolveFrom program config levels (depth + 1)) depth
        c).exec s = p at hgives hnone ⊢
      obtain ⟨e | result, t⟩ := p
      · exact resolvesWithin_resolveFailed hgives hnone
      · obtain ⟨hresult, hfits⟩ := ih (depth + 1) result t
        exact ⟨.returned hgives hresult, fun hpending => (hfits hpending).succ⟩
    | collection nodes ihnodes =>
      exact resolvesWithin_unlessPending (fun s _ => resolvesWithin_members ihnodes s) s
    | element e _ =>
      refine resolvesWithin_unlessPending (fun s hs => ?_) s
      cases hc : e.children with
      | none =>
        refine ⟨.childless hc, fun _ => .element fun n hn => ?_⟩
        exact absurd (hn.symm.trans hc) (Option.some_ne_none n)
      | some child =>
        obtain ⟨hresult, hfits⟩ := ih (depth + 1) child s
        refine ⟨.element hc hresult, fun hpending => .element ?_⟩
        rintro n ⟨⟩
        exact hfits hpending

end

section

variable (program : Program F σ) (config : Config)

def Calls.Idle {α : Type} (t : Scene σ) (a : α) (x : Calls σ α) : Prop := x.run t = pure (a, t)

private theorem Calls.Idle.bind_pure {α β : Type} {t : Scene σ} {a : α} {x : Calls σ α}
    (h : x.Idle t a)
    (f : α → β) : Calls.Idle t (f a) (do return f (← x)) := by
  rw [Calls.Idle, StateT.run_bind, h, pure_bind]
  rfl

private theorem Calls.Idle.unlessPending {node : Node F} {x : Calls σ (Node F)} {t : Scene σ}
    (ht : t.pending = none) (h : x.Idle t node) : Calls.Idle t node (TreeRender.unlessPending x) := by
  change (if t.pending.isSome then return .empty else x : Calls σ (Node F)).run t = _
  rw [ht, Option.isSome_none, if_neg Bool.false_ne_true]
  exact h

private theorem idle_resolveMembers {t : Scene σ} {below : Node F → Calls σ (Node F)} {depth : Nat}
    {nodes : List (Node F)} (h : ∀ n ∈ nodes, (resolveLevel program config below depth n).Idle t n) :
    (resolveMembers program config below depth nodes).Idle t nodes := by
  induction nodes with
  | nil => rfl
  | cons n rest ih =>
    obtain ⟨hn, hrest⟩ := List.forall_mem_cons.1 h
    rw [Calls.Idle, resolveMembers, StateT.run_bind, hn, pure_bind]
    exact (ih hrest).bind_pure (n :: ·)

private theorem idle_resolveFrom {levels : Nat} {node : Node F} (h : node.Settled levels)
    (depth : Nat)
    {t : Scene σ} (ht : t.pending = none) :
    (resolveFrom program config levels depth node).Idle t node := by
  induction h generalizing depth with
  | empty | text value => exact .unlessPending ht rfl
  | collection _ ih =>
    exact .unlessPending ht
      ((idle_resolveMembers program config fun n hn => ih n hn depth).bind_pure Node.collection)
  | @element levels e _ ih =>
    rw [resolveFrom]
    refine .unlessPending ht ?_
    cases hc : e.children with
    | none => rfl
    | some child =>
      have hchild := (ih child hc (depth + 1)).bind_pure fun n => Node.element (e.withChild n)
      rwa [Element.withChild_self hc] at hchild

/-- Resolving leaves no component: each was called, maybe again and again, and its place is taken by
what came of it. All else is kept, or dropped if an error came up that ends the render. If none did,
resolving what it gave again does nothing, whatever functions there are. -/
theorem resolve_leaves_no_component {τ : Type} (depth : Nat) (node : Node F) (s : Scene σ) :
    let resolved := (resolve program config depth node).exec s
    resolved.1.ComponentFree ∧
      Resolution program config (resolved.2.pending.isSome = true) node resolved.1 ∧
      (resolved.2.pending = none → ∀ (later : Program F τ) (t : Scene τ), t.pending = none →
        (resolve later config depth resolved.1).run t = pure (resolved.1, t)) := by
  obtain ⟨hresult, hfits⟩ : ResolvesWithin program config (config.levelsAt (depth + 1)) node
      ((resolve program config depth node).exec s) :=
    resolvesWithin_resolveFrom (config.levelsAt (depth + 1)) (depth + 1) node s
  exact ⟨hresult.componentFree, hresult, fun hnone later _ ht =>
    idle_resolveFrom later config (hfits hnone) (depth + 1) ht⟩

end

/-- Producers that refuse, except that `knot` gives itself and `list` a list with a broken item. -/
def Program.knotted : Program String Unit where
  produce name _ := return (
    if name = "knot" then .ok (.component (.producer name))
    else if name = "list" then
      .ok (.element ((Element.new "ul").withChildren [.component (.producer "item"), .empty]))
    else .error (.refused "no item"), ())
  provide _ _ _ _ := .finish (return (.ok .empty, ()))
  compute name _ := return (.ok name, ())

/-- A broken item leaves the list without it, for good. A knot leaves nothing. -/
theorem resolve_leaves_no_component_knotted :
    let list := Node.element ((Element.new "ul").withChildren [.empty, .empty])
    ((resolve Program.knotted {} 0 (.component (.producer "list"))).exec { state := () }).1 = list ∧
      (resolve Program.knotted {} 0 list).run { state := () } = pure (list, { state := () }) ∧
      ((resolve Program.knotted { maxDepth := 3 } 0 (.component (.producer "knot"))).exec
        { state := () }).2.pending = some (.depthExceeded 4 3) := by
  intro list
  obtain ⟨-, -, hagain⟩ := resolve_leaves_no_component Program.knotted {} 0
    (.component (.producer "list")) { state := () }
  exact ⟨rfl, hagain rfl Program.knotted { state := () } rfl, rfl⟩

end TreeRender
