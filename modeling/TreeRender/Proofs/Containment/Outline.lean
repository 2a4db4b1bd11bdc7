import TreeRender.Proofs.Containment.Calls
import TreeRender.Proofs.Outline.Basic

/-!
# Outlines of trees with their failures replaced

Outlining the tree in which the fallback stands for each failure goes as outlining the tree itself:
it ends with the same error, or with the outline in which the fallback stands for each mark of a
failure. Everything around a failure stays where it is.
-/

namespace TreeRender

variable {F G N M : Type}

/-- The second outline has the fallback as a text where the first one has a mark of a failure.
Otherwise they have the same texts, and elements with the same tags and attributes, functions
renamed. -/
inductive Outline.Filled (f : F → G) (fallback : String) : Outline F → Outline G → Prop
  | nil : Filled f fallback .nil .nil
  | text {content rest rest'} : Filled f fallback rest rest' →
    Filled f fallback (.text content rest) (.text content rest')
  | fallback {rest rest'} : Filled f fallback rest rest' →
    Filled f fallback (.fallback rest) (.text fallback rest')
  | element {e e' content content' rest rest'} : e'.tag = e.tag →
    e'.mapped = e.mapped.map (Attribute.rename f) → Filled f fallback content content' →
    Filled f fallback rest rest' →
    Filled f fallback (.element e content rest) (.element e' content' rest')

namespace Outline.Filled

variable {f : F → G} {fallback : String}

theorem append {o₁ o₂ : Outline F} {o₁' o₂' : Outline G} (h₁ : o₁.Filled f fallback o₁')
    (h₂ : o₂.Filled f fallback o₂') : (o₁ ++ o₂).Filled f fallback (o₁' ++ o₂') := by
  induction h₁ with
  | nil => exact h₂
  | text _ ih => exact .text ih
  | fallback _ ih => exact .fallback ih
  | element htag hmapped hcontent _ _ ih => exact .element htag hmapped hcontent ih

private theorem join {b b' : Unit} {os : List (Outline F)} {os' : List (Outline G)}
    (h : Chain (fun _ _ => Filled f fallback) b b' os os') :
    (Outline.join os).Filled f fallback (Outline.join os') := by
  induction h with
  | nil => exact .nil
  | cons h _ ih => exact h.append ih

end Outline.Filled

def WalkState.Quiet (s t : WalkState Unit Unit) : Prop := s.pending = none ∧ t.pending = none

/-- The second part of a walk ends as the first one does, with the fallback for each mark. -/
abbrev Walk.Fills (config : Config) (x : Walk Unit Unit (Outline F))
    (y : Walk Unit Unit (Outline (Placed F))) : Prop :=
  Walk.Tracks WalkState.Quiet () (fun _ => Outline.Filled Placed.free config.errorFallback) x y

section

variable {program : Program F Unit} {config : Config}

theorem quiet_onBackend {α γ : Type} {Q : α → γ → Prop} {x : StateT Unit Logged α}
    {y : StateT Unit Logged γ} (h : Q (x ()).value.1 (y ()).value.1) :
    Walk.Tracks WalkState.Quiet () (fun _ => Q) (Walk.onBackend x) (Walk.onBackend y) :=
  fun _ _ _ hst => .ok h hst

private theorem exec_outline_recover (hthrow : config.throwOnError = false) (cause : CallError)
    (t : WalkState Unit Unit) :
    (recover config (Outline.backend (F := F)) cause).exec t = (.ok (.fallback .nil), t) := by
  unfold recover
  rw [hthrow]
  rfl

private theorem fills_recover (hthrow : config.throwOnError = false) (cause : CallError) :
    Walk.Fills config (recover config (Outline.backend (F := F)) cause)
      (Walk.onBackend (Outline.backend.text config.errorFallback)) := by
  rintro s t - hst
  rw [exec_outline_recover hthrow]
  exact .ok (.fallback .nil) hst

private theorem quiet_directiveText (directive : Directive F) :
    Walk.Tracks WalkState.Quiet ()
      (fun _ outcome outcome' => outcome' = .ok (outcome.toOption.getD config.errorFallback))
      (Walk.onScene (directiveText program directive))
      (Walk.onScene (directiveText (program.placed config)
        ((program.replaceText config directive).rename .free))) := by
  rintro s t - ⟨hs, ht⟩
  cases directive with
  | literal text => exact .ok rfl ⟨hs, ht⟩
  | computed name =>
    rw [Walk.exec_onScene, exec_directiveText_computed, Program.replaceText]
    cases hcomputed : (program.compute name ()).value.1 with
    | ok text =>
      have hplaced : ((program.placed config).compute (.free name) ()).value.1 = .ok text :=
        hcomputed
      simp only [Directive.rename, Walk.exec_onScene, exec_directiveText_computed, hcomputed,
        hplaced]
      exact .ok rfl ⟨hs, ht⟩
    | error payload =>
      simp only [Directive.rename, hcomputed]
      exact .ok rfl ⟨hs, ht⟩

private theorem fills_walkDirective (hthrow : config.throwOnError = false)
    (directive : Option (Directive F)) :
    Walk.Tracks WalkState.Quiet ()
      (Chain (fun _ _ => Outline.Filled Placed.free config.errorFallback) ())
      (walkDirective program config Outline.backend directive)
      (walkDirective (program.placed config) config Outline.backend
        ((directive.map (program.replaceText config)).map (Directive.rename .free))) := by
  cases directive with
  | none => exact .pure .nil
  | some directive =>
    apply (quiet_directiveText directive).bind
    rintro _ outcome _ rfl
    cases outcome with
    | ok text =>
      exact .bind (quiet_onBackend (.text .nil)) fun _ _ _ h => .pure (.singleton h)
    | error cause =>
      exact .bind (fills_recover hthrow cause) fun _ _ _ h => .pure (.singleton h)

private theorem fills_walkElement (hthrow : config.throwOnError = false)
    {below : Node F → Walk Unit Unit (Outline F)}
    {below' : Node (Placed F) → Walk Unit Unit (Outline (Placed F))}
    {replace : Node F → Node (Placed F)}
    (hcollection : ∀ nodes, replace (.collection nodes) = .collection (nodes.map replace))
    (hsingle : ∀ n, n.kind ≠ .collection → (replace n).kind ≠ .collection)
    (hb : ∀ n, Walk.Fills config (below n) (below' (replace n))) (depth : Nat)
    (e : Element F (Node F)) :
    Walk.Fills config (walkElement program config Outline.backend below depth e)
      (walkElement (program.placed config) config Outline.backend below' depth
        (program.replaceElement config replace e)) := by
  have htag : (program.replaceElement config replace e).tag = e.tag := rfl
  have made {os : List (Outline F)} {os' : List (Outline (Placed F))}
      (h : Chain (fun _ _ => Outline.Filled Placed.free config.errorFallback) () () os os') :
      Walk.Fills config (Walk.onBackend (Outline.backend.element e os))
        (Walk.onBackend (Outline.backend.element (program.replaceElement config replace e) os')) :=
    quiet_onBackend (.element htag (mapped_replaceElement replace e) (.join h) .nil)
  cases hvalid : Markup.isValidName e.tag with
  | false =>
    rw [walkElement_invalid hvalid, walkElement_invalid (htag ▸ hvalid)]
    exact .logged _ _ (quiet_onBackend .nil)
  | true =>
    rw [walkElement_uncached hvalid rfl, walkElement_uncached (htag ▸ hvalid) rfl]
    apply Walk.Tracks.counted _ fun _ _ hst => hst
    cases hvoid : Markup.isVoid e.tag with
    | true =>
      rw [buildElement_void hvoid, buildElement_void (htag ▸ hvoid)]
      exact .after id id (fun _ => rfl) (fun _ => rfl) (fun _ => rfl) (fun _ _ hst => hst)
        (.logged _ _ (made .nil))
    | false =>
      rw [buildElement_content hvoid, buildElement_content (htag ▸ hvoid),
        childNodes_replaceElement e hcollection hsingle, walkEach_map]
      apply Walk.Tracks.after id id (fun _ => rfl) (fun _ => rfl) (fun _ => rfl)
        (fun _ _ hst => hst)
      apply (fills_walkDirective hthrow e.text).bind
      intro _ directive directive' hdirective
      apply (tracks_walkEach e.childNodes (fun n _ _ => hb n) ()).bind
      intro _ children children' hchildren
      exact made (hdirective.append hchildren)

private theorem exec_outline_failing (hthrow : config.throwOnError = false) {levels depth : Nat}
    {c : Component F} {cause : CallError} {s : Scene Unit} {t : WalkState Unit Unit}
    (hs : s.pending = none) (ht : t.pending = none)
    (h : ((evaluateFrom program config levels depth c).exec s).1 = .error (.failed cause)) :
    ∃ t', (outlineFrom program config (levels + 1) depth (.component c)).exec t =
      (.ok (.fallback .nil), t') ∧ t'.pending = none := by
  -- Outlining walks what a component gives, where evaluation calls it at once if it is a component.
  induction levels using Nat.strongRecOn generalizing depth c s t with
  | ind levels ih =>
    have hresult := result_invoke program config levels depth c (hs.trans ht.symm)
    have hsettled := pending_invoke program config (resolveFrom program config levels (depth + 1))
      depth c s
    have hsettled' := pending_invoke program config (resolveFrom program config levels (depth + 1))
      depth c t.toScene
    have hended := evaluateFrom_failed_iff.1 h
    rw [exec_outline_component]
    simp only [hresult] at hended
    generalize (invoke program config (resolveFrom program config levels (depth + 1)) depth
      c).exec t.toScene = called at hended hsettled' ⊢
    obtain ⟨outcome, u⟩ := called
    rcases hended with rfl | ⟨below, next, rfl, rfl, hnext⟩
    · exact ⟨_, exec_outline_recover hthrow _ _, hsettled'⟩
    · exact ih below (Nat.lt_succ_self below) hsettled hsettled' hnext

private theorem fills_component (hthrow : config.throwOnError = false) {levels depth : Nat}
    (hdepth : depth + levels = config.maxDepth)
    (hb : ∀ node, Walk.Fills config (outlineFrom program config levels (depth + 1) node)
      (outlineFrom (program.placed config) config levels (depth + 1)
        (program.replaceFrom config levels (depth + 1) node))) (c : Component F) :
    Walk.Fills config (outlineFrom program config (levels + 1) depth (.component c))
      (outlineFrom (program.placed config) config (levels + 1) depth
        (program.replaceFrom config (levels + 1) depth (.component c))) := by
  rintro s t - ⟨hs, ht⟩
  rw [Program.replaceFrom, Program.replaceLevel]
  cases hfails : program.failsAt config depth c with
  | true =>
    -- The text stands for the whole chain, wherever in it the failure was.
    obtain ⟨cause, hcause⟩ := failsAt_iff.1 hfails
    rw [evaluate_eq hdepth] at hcause
    obtain ⟨s', hexec, hs'⟩ := exec_outline_failing hthrow rfl hs hcause
    rw [hexec]
    exact .ok (.fallback .nil) ⟨hs', ht⟩
  | false =>
    have hstays := invoke_ne_failed hdepth hfails (s := s.toScene) hs
    have hsettled := pending_invoke program config (resolveFrom program config levels (depth + 1))
      depth c s.toScene
    obtain ⟨hresult, hsame⟩ := matches_standing program hdepth c s.toScene t.toScene
      (ht.trans hs.symm)
    rw [if_neg Bool.false_ne_true, exec_outline_component, exec_outline_component]
    generalize (invoke program config (resolveFrom program config levels (depth + 1)) depth
      c).exec s.toScene = called at hresult hsame hsettled hstays ⊢
    generalize (invoke (program.placed config) config _ depth _).exec t.toScene = called'
      at hresult hsame ⊢
    obtain ⟨outcome, u⟩ := called
    obtain ⟨outcome', u'⟩ := called'
    subst hresult
    have hquiet : WalkState.Quiet { s with toScene := u } { t with toScene := u' } :=
      ⟨hsettled, hsame.trans hsettled⟩
    cases outcome with
    | ok node => exact hb node _ _ rfl hquiet
    | error e =>
      cases e with
      | failed cause => exact absurd rfl (hstays cause)
      | depthExceeded depth maxDepth => exact .error hquiet
      | config cause => exact .error hquiet

theorem fills_outlineFrom (hthrow : config.throwOnError = false) {levels depth : Nat}
    (hdepth : depth + levels = config.maxDepth + 1) (node : Node F) :
    Walk.Fills config (outlineFrom program config levels depth node)
      (outlineFrom (program.placed config) config levels depth
        (program.replaceFrom config levels depth node)) := by
  induction levels generalizing depth node with
  | zero => exact .logged _ _ (.throw _)
  | succ levels ih =>
    have hbelow : depth + levels = config.maxDepth := by omega
    have below (n : Node F) := @ih (depth + 1) (by omega) n
    -- The members of a collection are walked at the depth of the collection.
    induction node using Node.inductOn with
    | empty => exact quiet_onBackend .nil
    | text value => exact quiet_onBackend (.text .nil)
    | component c => exact fills_component hthrow hbelow below c
    | collection nodes ihnodes =>
      have members : Walk.Tracks WalkState.Quiet ()
          (Chain (fun _ _ => Outline.Filled Placed.free config.errorFallback) ())
          (walkEach (outlineFrom program config (levels + 1) depth) nodes)
          (walkEach (fun n => outlineFrom (program.placed config) config (levels + 1) depth
            (program.replaceFrom config (levels + 1) depth n)) nodes) :=
        tracks_walkEach nodes (fun n hn _ => ihnodes n hn) ()
      rw [replaceFrom_collection, outlineFrom_collection, outlineFrom_collection, walkEach_map]
      exact members.bind fun _ _ _ hos => quiet_onBackend (.join hos)
    | element e _ =>
      exact fills_walkElement hthrow (replaceFrom_collection levels (depth + 1))
        (fun _ => kind_replaceFrom) below depth e

end

end TreeRender
