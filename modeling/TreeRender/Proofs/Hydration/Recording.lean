import TreeRender.Proofs.Hydration.Reached
import TreeRender.Proofs.Stream.TopDown

/-!
# Plans beside a record

The plan of a tree writes the parts that a walk over the tree reaches, piece by piece. So a walk
that records the parts can be cut into notes, one for each piece, that go along with the steps of
the plan: they call the same functions, fail where these fail, and list the parts of each piece.
-/

namespace TreeRender

open Markup

variable {F σ α V : Type}

/-- A walk that records parts stands beside one that writes them, from the registry `r` on. The
registry has gained exactly the actions of the recorded parts. -/
structure WalkState.Records (config : Config) (r : Registry F) (t : WalkState σ (List (Part F)))
    (s : WalkState σ (Registry F)) : Prop extends t.Beside config F s where
  valid : s.cache.Valid F config
  written : s.backend = (writeParts config t.backend r).2

/-- The text is what is written of the parts that are recorded after those in `b`. -/
def WritesNext (config : Config) (r : Registry F) (b b' : List (Part F)) (_ : V) (text : String) :
    Prop :=
  ∃ parts, b' = b ++ parts ∧ text = (writeParts config parts (writeParts config b r).2).1

/-- The part of a walk `note` records what `piece` writes, and fails where that does. -/
structure Walk.Notes (config : Config) (r : Registry F) (note : Walk σ (List (Part F)) Unit)
    (piece : Walk σ (Registry F) String) : Prop where
  grows : Walk.Within (fun t t' => t.backend <+: t'.backend) note
  tracks : ∀ b, Walk.Tracks (WalkState.Records config r) b (WritesNext config r b) note piece

/-- What a walk that records does where a stream writes an opening tag. -/
def entering (program : Program F σ) (config : Config) (e : Element F (Node F)) :
    Walk σ (List (Part F)) Unit := do
  Walk.count Scene.countElement
  Walk.onBackend (Part.recorder.enter e)
  if isVoid e.tag then reportContent e
  else
    let _ ← walkDirective program config Part.recorder e.text

section

variable {program : Program F σ} {config : Config} {r : Registry F} {b b' b₁ : List (Part F)}
  {u v : V} {text more : String}

theorem WritesNext.nil : WritesNext config r b b u "" :=
  ⟨[], (List.append_nil b).symm, by rw [writeParts_nil]⟩

theorem WritesNext.append (h : WritesNext config r b b₁ u text)
    (h' : WritesNext config r b₁ b' v more) : WritesNext config r b b' v (text ++ more) := by
  obtain ⟨parts, rfl, rfl⟩ := h
  obtain ⟨parts', rfl, rfl⟩ := h'
  refine ⟨parts ++ parts', List.append_assoc .., ?_⟩
  rw [writeParts_append config b parts r, writeParts_append config parts parts']

theorem stepsWithin_grows :
    (Part.recorder (F := F)).StepsWithin (σ := σ) (fun _ => True)
      fun t t' => t.backend <+: t'.backend where
  toHereditary := Node.hereditary_true
  refl _ := List.prefix_rfl
  trans h h' := h.trans h'
  scene _ _ := List.prefix_rfl
  clock _ _ := List.prefix_rfl
  lookUp h := nomatch h
  store h := nomatch h
  operation hx s := by
    obtain ⟨parts, happend, -⟩ := Part.appends_recorder hx
    exact ⟨parts, (happend s.backend).symm⟩

theorem tracks_records_call {x : Calls σ α} (hx : x.Blind) (b : List (Part F)) :
    Walk.Tracks (WalkState.Records config r) b (fun b' a c => b' = b ∧ a = c) (Walk.onScene x)
      (Walk.onScene x) := by
  rintro t s rfl hst
  rw [Walk.exec_onScene, Walk.exec_onScene, hst.scene, hx t.counters s.toScene]
  exact .ok ⟨rfl, rfl⟩ ⟨⟨rfl, rfl, rfl, rfl, hst.cache⟩, hst.valid, hst.written⟩

theorem tracks_writeParts (parts : List (Part F)) {x : StateT (List (Part F)) Logged V}
    {y : Walk σ (Registry F) String} (hx : ∀ b, (x b).value.2 = b ++ parts)
    (hy : ∀ s, y.exec s = (.ok (writeParts config parts s.backend).1,
      { s with backend := (writeParts config parts s.backend).2 })) (b : List (Part F)) :
    Walk.Tracks (WalkState.Records config r) b (WritesNext config r b) (Walk.onBackend x) y := by
  rintro t s rfl hst
  rw [Walk.exec_onBackend, hy s, hx, hst.written]
  refine .ok ⟨parts, rfl, rfl⟩ ⟨⟨hst.state, hst.pending, hst.errors, hst.callDepths, hst.cache⟩,
    hst.valid, ?_⟩
  rw [writeParts_append]

private theorem tracks_records_text (content : String) (b : List (Part F)) :
    Walk.Tracks (WalkState.Records (σ := σ) config r) b (WritesNext config r b)
      (Walk.onBackend (Part.recorder.text content)) (return escape content) := by
  refine tracks_writeParts [.text content] (fun _ => rfl) (fun s => ?_) b
  rw [writeParts_text]
  rfl

private theorem tracks_records_fallback (b : List (Part F)) :
    Walk.Tracks (WalkState.Records (σ := σ) config r) b (WritesNext config r b)
      (Walk.onBackend (Part.recorder.fallback config.errorFallback))
      (Walk.onBackend ((backend config.enableHydration).fallback config.errorFallback)) := by
  refine tracks_writeParts [.fallback] (fun _ => rfl) (fun s => ?_) b
  rw [writeParts_fallback]
  rfl

private theorem tracks_records_directive (directive : Option (Directive F)) (b : List (Part F)) :
    Walk.Tracks (WalkState.Records config r) b
      (fun b' us texts => WritesNext config r b b' us (String.join texts))
      (walkDirective program config Part.recorder directive)
      (walkDirective program config (backend config.enableHydration) directive) := by
  refine .walkDirective directive .nil (fun b₁ u text h => ?_)
    (fun d => tracks_records_call (blind_directiveText program d) b)
    (fun content => tracks_records_text content b) (tracks_records_fallback b)
  rw [String.join_cons]
  exact h.append (WritesNext.nil (u := u))

private theorem tracks_records_opening (e : Element F (Node F)) (b : List (Part F)) :
    Walk.Tracks (WalkState.Records config r) b (WritesNext config r b)
      (entering program config e) (opening program config e) := by
  have tag : Walk.Tracks (WalkState.Records (σ := σ) config r) b (WritesNext config r b)
      (Walk.onBackend (Part.recorder.enter e))
      (Walk.onBackend (openTag config.enableHydration e)) := by
    refine tracks_writeParts [.opening e] (fun _ => rfl) (fun s => ?_) b
    rw [Walk.exec_onBackend, value_openTag, openText_eq_writeParts]
  refine .counted _ (fun _ _ hst => ⟨⟨hst.state, hst.pending, hst.errors, hst.callDepths,
    hst.cache⟩, hst.valid, hst.written⟩) (tag.bind fun b₁ _ text htext => ?_)
  cases isVoid e.tag with
  | true => exact .logged (reportContent e) _ (.pure htext)
  | false =>
    apply (tracks_records_directive e.text b₁).bind
    intro b₂ us texts htexts
    exact .pure (htext.append htexts)

end

private theorem Node.hereditary_functionFree :
    Node.Hereditary fun n : Node F => n.containsFunction = false where
  child {e n} he hn := by
    have hchildren := e.containsFunction_eq.symm.trans he
    exact anyContainsFunction_eq_false (Bool.or_eq_false_iff.1 hchildren).2 n hn
  member h hn := anyContainsFunction_eq_false h _ hn
  returned _ h := nomatch h

private theorem Element.actions_functionFree {e : Element F (Node F)}
    (he : e.containsFunction = false) :
    e.actions = [] := by
  refine List.filterMap_eq_nil_iff.2 fun entry hentry => ?_
  have hhandler := List.any_eq_false.1 (e.function_free he).1 entry hentry
  obtain ⟨key, value⟩ := entry
  cases value with
  | handler name => exact absurd rfl hhandler
  | _ => rfl

private theorem stepsWithin_unpublished (hydrate : Bool) :
    (backend (F := F) hydrate).StepsWithin (σ := σ) (fun n => n.containsFunction = false)
      fun s s' => s'.backend = s.backend where
  toHereditary := Node.hereditary_functionFree
  refl _ := rfl
  trans h h' := h'.trans h
  scene _ _ := rfl
  clock _ _ := rfl
  lookUp _ _ _ _ := rfl
  store _ _ _ _ _ := rfl
  operation hx s := by
    cases hx with
    | @element e content _ he =>
      have hfree := e.function_free he
      change (elementText hydrate e content s.backend).value.2 = s.backend
      rw [value_elementText, Outline.openText_static hfree.1]
    | _ => rfl

section

variable {program : Program F σ} {config : Config} {r : Registry F} {b : List (Part F)}

private theorem writeParts_unpublished {parts : List (Part F)}
    (h : ∀ e, .opening e ∈ parts → e.containsFunction = false) :
    (writeParts config parts r).2 = r := by
  have hnone : parts.flatMap (Part.actions config) = [] := by
    refine List.flatMap_eq_nil_iff.2 fun part hpart => ?_
    cases part with
    | opening e => rw [Part.actions, Element.actions_functionFree (h e hpart), ite_self]
    | _ => rfl
  rw [writeParts, hnone, Registry.gain_nil]

private theorem WalkState.Beside.of_both {β β' β'' : Type} {s : WalkState σ β} {t : WalkState σ β'}
    {u : WalkState σ β''} (hs : s.Beside config F u) (ht : t.Beside config F u) :
    s.Beside config F t :=
  ⟨hs.state.trans ht.state.symm, hs.pending.trans ht.pending.symm, hs.errors.trans ht.errors.symm,
    hs.callDepths.trans ht.callDepths.symm, hs.cache⟩

private theorem tracks_records_piece {levels depth : Nat}
    (hdepth : depth + levels = config.maxDepth)
    (hpos : 1 ≤ depth) {e : Element F (Node F)} (hcacheable : config.isCacheable e = true)
    (b : List (Part F)) :
    Walk.Tracks (WalkState.Records config r) b (WritesNext config r b)
      (walkFrom program config Part.recorder (levels + 1) depth (.element e))
      (pieceOf program config (levels + 1) depth (.element e)) := by
  rintro t s rfl hst
  have hfree : (Node.element e).containsFunction = false :=
    Config.isCacheable_functionFree hcacheable
  have hlevels : depth + (levels + 1) = config.maxDepth + 1 := by omega
  let u : WalkState σ Unit :=
    { toScene := s.toScene, clock := s.clock, cache := s.cache, backend := () }
  have recorded : Walk.Agree (WalkState.Beside config F) (fun b _ o => b = t.backend ++ o.parts)
      ((walkFrom program config Part.recorder (levels + 1) depth (.element e)).exec t)
      ((outlineFrom program config (levels + 1) depth (.element e)).exec u) :=
    (Part.realizes_recorder config.errorFallback).tracks hlevels _ _ t u rfl
      ⟨hst.state, hst.pending, hst.errors, hst.callDepths, hst.cache⟩
  have piece : Walk.Agree (WalkState.Beside config F) (WrittenTopDown config s.backend)
      ((pieceOf program config (levels + 1) depth (.element e)).exec s)
      ((outlineFrom program config (levels + 1) depth (.element e)).exec u) :=
    tracks_pieceOf hdepth hcacheable s.backend s u rfl ⟨rfl, rfl, rfl, rfl, hst.valid⟩
  -- A fragment that fails on the way is recorded as far as it got, and publishes nothing.
  have hrecorded : ∃ parts, ((walkFrom program config Part.recorder (levels + 1) depth
      (.element e)).exec t).2.backend = t.backend ++ parts ∧ _ :=
    (Part.stepsWithin_recorder Node.hereditary_functionFree).closed.walkFrom hlevels hpos hfree t
  have hkept : ((pieceOf program config (levels + 1) depth (.element e)).exec s).2.backend =
      s.backend :=
    (stepsWithin_unpublished config.enableHydration).closed.walkFrom hlevels hpos hfree s
  generalize (pieceOf program config (levels + 1) depth (.element e)).exec s = p at piece hkept ⊢
  generalize (walkFrom program config Part.recorder (levels + 1) depth (.element e)).exec t = q
    at recorded hrecorded ⊢
  generalize houtline : (outlineFrom program config (levels + 1) depth (.element e)).exec u = o
    at piece recorded
  cases piece with
  | @ok text o s' u' htext hs =>
    cases recorded with
    | @ok _ _ t' _ hparts ht =>
      have hwell : o.WellFormed := wellFormed_of_exec hlevels hst.valid houtline
      rw [WrittenTopDown, Outline.topDown_eq_writeParts hwell, hst.written] at htext
      refine .ok ⟨o.parts, hparts, (congrArg Prod.fst htext).symm⟩ ⟨ht.of_both hs, hs.cache, ?_⟩
      rw [hparts, writeParts_append, htext]
  | error hs =>
    cases recorded with
    | error ht =>
      refine .error ⟨ht.of_both hs, hs.cache, ?_⟩
      obtain ⟨parts, hparts, hvalid⟩ := hrecorded
      rw [hkept, hparts, writeParts_append, hst.written]
      exact (writeParts_unpublished fun e he => (hvalid e he).2).symm

end

/-- The steps of a plan in turn have the notes of a walk beside them, from the registry `r` on. -/
def Markup.Plan.RecordedBy (config : Config) (r : Registry F) :
    Plan F σ → Walk σ (List (Part F)) Unit → Prop
  | .done, x => x = return ()
  | .write _ piece rest, x => ∃ note more, x = (do note; more) ∧ Walk.Notes config r note piece ∧
      rest.RecordedBy config r more
  | .call component resume rest, x => ∃ (goOn : Node F → Walk σ (List (Part F)) Unit) (more : _),
      (x = do
        match ← Walk.onScene component with
        | .ok node => goOn node
        | .error (.failed cause) => do recover config Part.recorder cause; more
        | .error e => throw e) ∧
      component.Blind ∧ (∀ node, (resume node).RecordedBy config r (goOn node)) ∧
      rest.RecordedBy config r more

section

variable {program : Program F σ} {config : Config} {r : Registry F}

theorem notes_recover (cause : CallError) :
    Walk.Notes (σ := σ) config r (recover config Part.recorder cause)
      (recover config (backend config.enableHydration) cause) where
  grows := stepsWithin_grows.composable.recover stepsWithin_grows.throw cause
  tracks b := (tracks_records_fallback b).recover cause

private theorem notes_tooDeep (e : RenderError) :
    Walk.Notes (σ := σ) config r (do reportDepth; throw e) (do reportDepth; throw e) where
  grows := stepsWithin_grows.composable.bind (stepsWithin_grows.composable.logged _)
    fun _ => stepsWithin_grows.throw e
  tracks _ := .logged _ _ (.throw e)

private theorem notes_text (content : String) :
    Walk.Notes (σ := σ) config r (Walk.onBackend (Part.recorder.text content))
      (return escape content) where
  grows := stepsWithin_grows.composable.operation (.text content)
  tracks := tracks_records_text content

private theorem notes_unnamed (tag : String) :
    Walk.Notes (σ := σ) config r (do reportTag tag; Walk.onBackend Part.recorder.empty)
      (do reportTag tag; return "") where
  grows := stepsWithin_grows.composable.bind (stepsWithin_grows.composable.logged _)
    fun _ => stepsWithin_grows.composable.operation .empty
  tracks _ := .logged _ _ (Walk.Tracks.pure (a := ()) .nil)

private theorem notes_opening {e : Element F (Node F)} (hvalid : isValidName e.tag = true) :
    Walk.Notes config r (entering program config e) (opening program config e) where
  grows := by
    have composes := (stepsWithin_grows (F := F) (σ := σ)).composable
    unfold entering
    apply composes.bind composes.countElement
    intro _
    apply composes.bind (composes.operation (.enter hvalid trivial))
    intro _
    split
    · exact composes.logged _
    · exact composes.bind (composes.walkDirective stepsWithin_grows.throw stepsWithin_grows.onScene
        e.text) fun _ => composes.pure _
  tracks := tracks_records_opening e

private theorem notes_closing {e : Element F (Node F)} (hvalid : isValidName e.tag = true)
    (hvoid : isVoid e.tag = false) :
    Walk.Notes (σ := σ) config r (Walk.onBackend (Part.recorder.element e []))
      (return closeTag e.tag) where
  grows := stepsWithin_grows.composable.operation (.element [] hvalid trivial)
  tracks := by
    refine tracks_writeParts [.closing e.tag] (fun b => ?_) fun s => ?_
    · change b ++ (if isVoid e.tag then [] else [.closing e.tag]) = _
      rw [hvoid, if_neg Bool.false_ne_true]
    · rw [writeParts_closing]
      rfl

private theorem notes_piece {levels depth : Nat} (hdepth : depth + levels = config.maxDepth)
    (hpos : 1 ≤ depth) {e : Element F (Node F)} (hcacheable : config.isCacheable e = true) :
    Walk.Notes config r (walkFrom program config Part.recorder (levels + 1) depth (.element e))
      (pieceOf program config (levels + 1) depth (.element e)) where
  grows := stepsWithin_grows.closed.walkFrom (by omega) hpos trivial
  tracks := tracks_records_piece hdepth hpos hcacheable

private theorem leaving_void {e : Element F (Node F)} (h : isVoid e.tag = true) :
    (Walk.onBackend (Part.recorder.element e []) : Walk σ (List (Part F)) Unit) = return () := by
  have hnothing :
      (Part.recorder.element e [] : StateT (List (Part F)) Logged Unit) = return () := by
    funext b
    change (pure ((), b ++ if isVoid e.tag then [] else [.closing e.tag]) : Logged _) = _
    rw [h, if_pos rfl, List.append_nil]
    rfl
  rw [hnothing]
  rfl

private theorem recordedBy_planEach {below : Node F → Plan F σ → Plan F σ}
    {f : Node F → Walk σ (List (Part F)) Unit} (nodes : List (Node F))
    (h : ∀ n ∈ nodes, ∀ rest more, rest.RecordedBy config r more →
      (below n rest).RecordedBy config r (do f n; more))
    {rest : Plan F σ} {more : Walk σ (List (Part F)) Unit} (hrest : rest.RecordedBy config r more) :
    (planEach below nodes rest).RecordedBy config r (do let _ ← walkEach f nodes; more) := by
  induction nodes with
  | nil => exact hrest
  | cons n nodes ih =>
    have hnodes := h n (by simp) _ _ (ih fun m hm => h m (by simp [hm]))
    simpa only [planEach, walkEach, bind_assoc, pure_bind] using hnodes

private theorem recordedBy_planElement {below : Node F → Plan F σ → Plan F σ}
    {f : Node F → Walk σ (List (Part F)) Unit} {levels depth : Nat}
    (hdepth : depth + levels = config.maxDepth) (hpos : 1 ≤ depth)
    (h : ∀ n rest more, rest.RecordedBy config r more →
      (below n rest).RecordedBy config r (do f n; more))
    (hbelow : f = walkFrom program config Part.recorder levels (depth + 1))
    (e : Element F (Node F)) {rest : Plan F σ} {more : Walk σ (List (Part F)) Unit}
    (hrest : rest.RecordedBy config r more) :
    (planElement program config below (levels + 1) depth e rest).RecordedBy config r
      (do walkElement program config Part.recorder f depth e; more) := by
  unfold planElement
  split
  · rename_i hcacheable
    subst hbelow
    exact ⟨_, more, rfl, notes_piece hdepth hpos hcacheable, hrest⟩
  · cases hvalid : isValidName e.tag with
    | false =>
      rw [walkElement_invalid hvalid]
      exact ⟨_, more, rfl, notes_unnamed e.tag, hrest⟩
    | true =>
      rw [walkElement_uncached hvalid rfl, Bool.not_true, if_neg Bool.false_ne_true]
      cases hvoid : isVoid e.tag with
      | true =>
        refine ⟨entering program config e, more, ?_, notes_opening hvalid, hrest⟩
        rw [buildElement_void hvoid, leaving_void hvoid, entering, hvoid, if_pos rfl]
        simp only [bind_assoc, pure_bind]
      | false =>
        have hclosed : (Plan.write false (return closeTag e.tag) rest).RecordedBy config r
            (do Walk.onBackend (Part.recorder.element e []); more) :=
          ⟨_, more, rfl, notes_closing hvalid hvoid, hrest⟩
        refine ⟨entering program config e, _, ?_, notes_opening hvalid,
          recordedBy_planEach e.childNodes (fun n _ => h n) hclosed⟩
        rw [buildElement_content hvoid, entering, hvoid, if_neg Bool.false_ne_true]
        simp only [bind_assoc, pure_bind]
        rfl

private theorem recordedBy_planLevel {below : Node F → Plan F σ → Plan F σ} {levels depth : Nat}
    (hdepth : depth + levels = config.maxDepth) (hpos : 1 ≤ depth)
    (h : ∀ n rest more, rest.RecordedBy config r more → (below n rest).RecordedBy config r
      (do walkFrom program config Part.recorder levels (depth + 1) n; more))
    (node : Node F) {rest : Plan F σ} {more : Walk σ (List (Part F)) Unit}
    (hrest : rest.RecordedBy config r more) :
    (planLevel program config below levels depth node rest).RecordedBy config r
      (do walkFrom program config Part.recorder (levels + 1) depth node; more) := by
  induction node using Node.inductOn generalizing rest more with
  | empty => exact hrest
  | text value => exact ⟨_, more, rfl, notes_text value.text, hrest⟩
  | component c =>
    refine ⟨_, more, ?_, blind_invoke program config
      (blind_resolveFrom program config levels (depth + 1)) depth c,
      fun node => h node rest more hrest, hrest⟩
    rw [walkFrom, walkLevel, bind_assoc]
    congr 1
    funext outcome
    cases outcome with
    | ok node => rfl
    | error e => cases e <;> rfl
  | collection nodes ih =>
    rw [planLevel, planMembers_eq]
    have hnodes := recordedBy_planEach nodes (fun n hn rest more => ih n hn) hrest
    rw [walkFrom, walkLevel, walkMembers_eq, bind_assoc]
    exact hnodes
  | element e _ => exact recordedBy_planElement hdepth hpos h rfl e hrest

private theorem recordedBy_planFrom {levels depth : Nat}
    (hdepth : depth + levels = config.maxDepth + 1)
    (hpos : 1 ≤ depth) (node : Node F) {rest : Plan F σ} {more : Walk σ (List (Part F)) Unit}
    (hrest : rest.RecordedBy config r more) :
    (planFrom program config levels depth node rest).RecordedBy config r
      (do walkFrom program config Part.recorder levels depth node; more) := by
  induction levels generalizing depth node rest more with
  | zero => exact ⟨_, return (), rfl, notes_tooDeep _, rfl⟩
  | succ levels ih =>
    exact recordedBy_planLevel (by omega) hpos
      (fun n rest more hr => ih (by omega) (by omega) n hr) node hrest

/-- A walk that records what it reaches has the notes for the plan of a tree. -/
theorem recordedBy_plan (node : Node F) : (plan program config node).RecordedBy config r
    (walk program config Part.recorder 1 node) := by
  have h : (plan program config node).RecordedBy config r
      (do walk program config Part.recorder 1 node; return ()) :=
    recordedBy_planFrom (Nat.add_comm 1 config.maxDepth) (Nat.le_refl 1) node (Eq.refl _)
  rwa [bind_pure] at h

end

end TreeRender
