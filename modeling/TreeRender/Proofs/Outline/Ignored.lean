import TreeRender.Proofs.Calls
import TreeRender.Proofs.Outline.Twin

/-!
# Content that is not entered

The walk goes into no void element and into none whose name is not valid, whatever is in there:
texts, functions, or trees of any depth. Two trees that differ only in such content, and functions
that return such trees, have outlines that show the same, and call the same functions.
-/

namespace TreeRender

open Walk (Tracks)

variable {F σ α ε : Type}

/-- Results of functions: nodes that `R` relates, or the same failure. -/
inductive ResultsAlike (R : α → α → Prop) : Except ε α → Except ε α → Prop
  | ok {a a'} : R a a' → ResultsAlike R (.ok a) (.ok a')
  | error (e) : ResultsAlike R (.error e) (.error e)

/-- The same trees, but for the text and the children of elements that are not entered. Providers
may only stand in trees whose functions are `shared`, since what they resolve includes what is not
entered. -/
inductive Node.EnteredAlike (shared : Prop) : Node F → Node F → Prop
  | empty : EnteredAlike shared .empty .empty
  | text (value) : EnteredAlike shared (.text value) (.text value)
  | producer (name) : EnteredAlike shared (.component (.producer name)) (.component (.producer name))
  | provider (name) : shared →
    EnteredAlike shared (.component (.provider name)) (.component (.provider name))
  | collection {nodes nodes'} : List.Forall₂ (EnteredAlike shared) nodes nodes' →
    EnteredAlike shared (.collection nodes) (.collection nodes')
  | element {e e' : Element F (Node F)} : e'.tag = e.tag → e'.attributes = e.attributes →
    e'.text = e.text → Option.Rel (EnteredAlike shared) e.children e'.children →
    EnteredAlike shared (.element e) (.element e')
  | ignored {e e' : Element F (Node F)} : e'.tag = e.tag → e'.attributes = e.attributes →
    e.isEntered = false → EnteredAlike shared (.element e) (.element e')

/-- Functions that do the same, and return trees that are the same where the walk enters. -/
structure Program.ReturnsAlike (shared : Prop) (p q : Program F σ) : Prop where
  same : shared → q = p
  produce : ∀ name s,
    ResultsAlike (Node.EnteredAlike shared) (p.produce name s).value.1 (q.produce name s).value.1 ∧
      (q.produce name s).value.2 = (p.produce name s).value.2
  compute : ∀ name s, (q.compute name s).value = (p.compute name s).value

theorem Node.EnteredAlike.refl {shared : Prop} (h : shared) (n : Node F) :
    n.EnteredAlike shared n := by
  induction n using Node.inductOn with
  | empty => exact .empty
  | text value => exact .text value
  | component c =>
    cases c with
    | producer name => exact .producer name
    | provider name => exact .provider name h
  | collection nodes ih =>
    apply EnteredAlike.collection
    induction nodes with
    | nil => exact .nil
    | cons n rest ihrest =>
      exact .cons (ih n List.mem_cons_self)
        (ihrest fun m hm => ih m (List.mem_cons_of_mem n hm))
  | element e ih =>
    apply EnteredAlike.element rfl rfl rfl
    cases hc : e.children with
    | none => exact .none
    | some child => exact .some (ih child hc)

theorem ResultsAlike.refl {R : α → α → Prop} (h : ∀ a, R a a) (x : Except ε α) :
    ResultsAlike R x x := by
  cases x with
  | ok a => exact .ok (h a)
  | error e => exact .error e

theorem Program.ReturnsAlike.refl (p : Program F σ) : p.ReturnsAlike True p where
  same _ := rfl
  produce _ _ := ⟨.refl (.refl trivial) _, rfl⟩
  compute _ _ := rfl

variable {shared : Prop} {p q : Program F σ}

theorem Program.ReturnsAlike.recorded (h : p.ReturnsAlike shared q) :
    p.recorded.ReturnsAlike shared q.recorded where
  same hshared := by rw [h.same hshared]
  produce name s := by
    obtain ⟨hresult, hstate⟩ := h.produce name s.1
    exact ⟨hresult, congrArg (·, s.2 ++ [.produce name]) hstate⟩
  compute name s := by
    have hcomputed := h.compute name s.1
    exact congrArg (fun c => (c.1, c.2, s.2 ++ [.compute name])) hcomputed

private theorem Node.EnteredAlike.asChildren {n n' : Node F} (h : n.EnteredAlike shared n') :
    List.Forall₂ (Node.EnteredAlike shared) n.asChildren n'.asChildren := by
  cases h with
  | collection hnodes => exact hnodes
  | empty => exact .cons .empty .nil
  | text value => exact .cons (.text value) .nil
  | producer name => exact .cons (.producer name) .nil
  | provider name hshared => exact .cons (.provider name hshared) .nil
  | element htag hattributes htext hchildren =>
    exact .cons (.element htag hattributes htext hchildren) .nil
  | ignored htag hattributes hignored => exact .cons (.ignored htag hattributes hignored) .nil

private theorem Element.childNodes_enteredAlike {e e' : Element F (Node F)}
    (h : Option.Rel (Node.EnteredAlike shared) e.children e'.children) :
    List.Forall₂ (Node.EnteredAlike shared) e.childNodes e'.childNodes := by
  generalize hc : e.children = children, hc' : e'.children = children' at h
  cases h with
  | none => rw [e.childNodes_none hc, e'.childNodes_none hc']; exact .nil
  | some hchild => rw [e.childNodes_some hc, e'.childNodes_some hc']; exact hchild.asChildren

private theorem tracks_twin_self (x : Walk σ Unit (Outline F)) :
    Tracks Eq () (fun _ o o' => o.Twin o') x x :=
  (Tracks.self x ()).imp fun _ o _ ho => ho ▸ .refl o

private theorem tracks_units {o o' : Outline F} (h : o.Twin o') :
    Tracks Eq () (fun _ o o' => o.Twin o') (Walk.onBackend (return o) : Walk σ Unit (Outline F))
      (Walk.onBackend (return o')) := by
  rintro s _ - rfl
  exact .ok h rfl

private theorem Outline.twin_join {os os' : List (Outline F)} (h : List.Forall₂ Outline.Twin os os')
    :
    (join os).Twin (join os') := by
  induction h with
  | nil => exact .nil
  | cons ho _ ih => exact ho.append ih

private theorem tracks_walkEach_forall₂ {f g : Node F → Walk σ Unit (Outline F)}
    {nodes nodes' : List (Node F)}
    (h : List.Forall₂ (fun n n' => Tracks Eq () (fun _ o o' => o.Twin o') (f n) (g n'))
      nodes nodes') :
    Tracks Eq () (fun _ os os' => List.Forall₂ Outline.Twin os os') (walkEach f nodes)
      (walkEach g nodes') := by
  induction h with
  | nil => exact .pure .nil
  | cons hn _ ih =>
    apply Tracks.bind hn
    intro _ o o' ho
    exact ih.bind fun _ os os' hos => .pure (.cons ho hos)

section

variable (h : p.ReturnsAlike shared q) (config : Config)

include h

private theorem exec_directiveText_alike (directive : Directive F) (s : Scene σ) :
    (directiveText q directive).exec s = (directiveText p directive).exec s := by
  cases directive with
  | literal text => rfl
  | computed name => rw [exec_directiveText_computed, exec_directiveText_computed, h.compute]

private theorem exec_invoke_alike {resolve resolve' : Node F → Calls σ (Node F)}
    (hresolve : shared → resolve' = resolve) (depth : Nat) {c c' : Component F}
    (hc : Node.EnteredAlike shared (.component c) (.component c')) (s : Scene σ) :
    ResultsAlike (Node.EnteredAlike shared) ((invoke p config resolve depth c).exec s).1
        ((invoke q config resolve' depth c').exec s).1 ∧
      ((invoke q config resolve' depth c').exec s).2 =
        ((invoke p config resolve depth c).exec s).2 := by
  cases hc with
  | provider name hshared =>
    rw [h.same hshared, hresolve hshared]
    exact ⟨.refl (.refl hshared) _, rfl⟩
  | producer name =>
    obtain ⟨hresult, hstate⟩ := h.produce name (s.enterCall depth).state
    simp only [exec_invoke, exec_callComponent_producer, hstate]
    generalize (p.produce name (s.enterCall depth).state).value.1 = outcome,
      (q.produce name (s.enterCall depth).state).value.1 = outcome' at hresult
    cases (s.enterCall depth).pending with
    | some e => exact ⟨.error e, rfl⟩
    | none =>
      cases hresult with
      | ok hn => exact ⟨.ok hn, rfl⟩
      | error failure => exact ⟨.error _, rfl⟩

private theorem tracks_walkDirective_alike (directive : Option (Directive F)) :
    Tracks Eq () (fun _ os os' => List.Forall₂ Outline.Twin os os')
      (walkDirective p config Outline.backend directive)
      (walkDirective q config Outline.backend directive) := by
  have hsame : (walkDirective q config Outline.backend directive).exec =
      (walkDirective p config Outline.backend directive).exec := by
    cases directive with
    | none => rfl
    | some directive =>
      funext t
      rw [walkDirective, walkDirective, Walk.exec_bind, Walk.exec_bind, Walk.exec_onScene,
        Walk.exec_onScene, exec_directiveText_alike h]
  rintro s _ - rfl
  rw [hsame]
  refine (Tracks.self _ () s s rfl rfl).imp fun _ os os' hos => hos ▸ ?_
  exact List.forall₂_same.2 fun o _ => .refl o

private theorem tracks_walkElement_alike {below below' : Node F → Walk σ Unit (Outline F)}
    (hbelow : ∀ n n', n.EnteredAlike shared n' →
      Tracks Eq () (fun _ o o' => o.Twin o') (below n) (below' n'))
    (depth : Nat) {e e' : Element F (Node F)}
    (he : Node.EnteredAlike shared (.element e) (.element e')) :
    Tracks Eq () (fun _ o o' => o.Twin o')
      (walkElement p config Outline.backend below depth e)
      (walkElement q config Outline.backend below' depth e') := by
  have hhead : e'.tag = e.tag ∧ e'.attributes = e.attributes := by
    cases he with
    | element htag hattributes => exact ⟨htag, hattributes⟩
    | ignored htag hattributes => exact ⟨htag, hattributes⟩
  obtain ⟨htag, hattributes⟩ := hhead
  have hmapped : e'.mapped = e.mapped := by
    rw [Element.mapped, Element.mapped, hattributes]
  cases hvalid : Markup.isValidName e.tag with
  | false =>
    rw [walkElement_invalid hvalid, walkElement_invalid (htag ▸ hvalid), htag]
    exact tracks_twin_self _
  | true =>
    rw [walkElement_uncached hvalid rfl, walkElement_uncached (htag ▸ hvalid) rfl]
    apply Tracks.step
    intro _ _
    cases hvoid : Markup.isVoid e.tag with
    | true =>
      rw [buildElement_void hvoid, buildElement_void (htag ▸ hvoid)]
      apply Tracks.step (Walk.onBackend (Outline.backend.enter e))
      intro _ _
      -- Only what is reported of the content can differ.
      apply Tracks.logged
      exact tracks_units (.element htag hmapped .nil .nil)
    | false =>
      rw [buildElement_content hvoid, buildElement_content (htag ▸ hvoid)]
      obtain ⟨htext, hchildren⟩ : e'.text = e.text ∧
          Option.Rel (Node.EnteredAlike shared) e.children e'.children := by
        cases he with
        | element _ _ htext hchildren => exact ⟨htext, hchildren⟩
        | ignored _ _ hignored => simp [Element.isEntered, hvalid, hvoid] at hignored
      apply Tracks.step (Walk.onBackend (Outline.backend.enter e))
      intro _ _
      rw [htext]
      apply Tracks.bind (tracks_walkDirective_alike h config e.text)
      intro _ os os' hos
      have hbelow' := (Element.childNodes_enteredAlike hchildren).imp hbelow
      apply Tracks.bind (tracks_walkEach_forall₂ hbelow')
      intro _ us us' hus
      have hcontent := Outline.twin_join (List.rel_append hos hus)
      exact tracks_units (.element htag hmapped hcontent .nil)

private theorem tracks_outlineFrom_alike (levels depth : Nat) (n n' : Node F)
    (hn : n.EnteredAlike shared n') :
    Tracks Eq () (fun _ o o' => o.Twin o') (outlineFrom p config levels depth n)
      (outlineFrom q config levels depth n') := by
  rw [outlineFrom, outlineFrom, Traversal.walkFrom_eq_visit, Traversal.walkFrom_eq_visit]
  induction levels generalizing depth n n' with
  | zero =>
    rw [Traversal.visit, Traversal.visit]
    exact tracks_twin_self _
  | succ levels ih =>
    rw [Traversal.visit, Traversal.visit]
    induction n using Node.inductOn generalizing n' with
    | empty =>
      cases hn with
      | empty => exact tracks_units .nil
    | text value =>
      cases hn with
      | text => exact tracks_units (.text .nil)
    | component c =>
      obtain ⟨c', rfl⟩ : ∃ c', n' = .component c' := by cases hn <;> exact ⟨_, rfl⟩
      have hresolve : shared → resolveFrom q config levels (depth + 1) =
          resolveFrom p config levels (depth + 1) := fun hshared => by rw [h.same hshared]
      apply Tracks.bind (.onScene (exec_invoke_alike h config hresolve depth hn))
      intro _ _ _ houtcome
      cases houtcome with
      | ok hnode => exact ih (depth + 1) _ _ hnode
      | error e =>
        cases e with
        | failed cause => exact tracks_twin_self (recover config Outline.backend cause)
        | depthExceeded depth maxDepth => exact .throw _
        | config cause => exact .throw _
    | collection nodes ihnodes =>
      cases hn with
      | collection hnodes =>
        rw [Traversal.visitLevel, Traversal.visitLevel, Traversal.visitMembers_eq,
          Traversal.visitMembers_eq]
        have hmembers := (List.forall₂_and_left _ _).2 ⟨ihnodes, hnodes⟩
        apply Tracks.bind (tracks_walkEach_forall₂ (hmembers.imp fun _ n' hn => hn.1 n' hn.2))
        intro _ os os' hos
        exact tracks_units (Outline.twin_join hos)
    | element e _ =>
      obtain ⟨e', rfl⟩ : ∃ e', n' = .element e' := by cases hn <;> exact ⟨_, rfl⟩
      exact tracks_walkElement_alike h config (ih (depth + 1)) depth hn

theorem outlining_enteredAlike {n n' : Node F} (hn : n.EnteredAlike shared n') (state : σ) :
    Outline.TwinResults (outlining p config n state).1 (outlining q config n' state).1 ∧
      (outlining q config n' state).2 = (outlining p config n state).2 := by
  have agree := tracks_outlineFrom_alike h config (config.levelsAt 1) 1 n n' hn
    (outlineStart state) (outlineStart state) rfl rfl
  unfold outlining
  generalize (outlineFrom p config (config.levelsAt 1) 1 n).exec (outlineStart state) = ended
    at agree ⊢
  generalize (outlineFrom q config (config.levelsAt 1) 1 n').exec (outlineStart state) = ended'
    at agree ⊢
  cases agree with
  | ok htwin hstate => exact ⟨.ok htwin, hstate.symm⟩
  | error hstate => exact ⟨.error _, hstate.symm⟩

end

end TreeRender
