import TreeRender.Proofs.Dom.Parity
import TreeRender.Proofs.Walk.Along

/-!
# Namespaces follow the tree

The backend of live nodes keeps the namespaces of the elements that are being built on a stack. The
stack always tells the way to the element at hand: so the host is asked for each element with the
namespace of the nearest `svg` or `math` on the way from the element outwards, whatever failed, was
left out or was refused before or around it.
-/

namespace TreeRender

variable {F H N σ : Type}

namespace Dom

/-- The namespace that tags tell, from an element outwards: that of the nearest `svg` or `math`. -/
def nearestNamespace (default : Option String) (tags : List String) : Option String :=
  match tags.find? fun tag =>
    Text.sameIgnoringCase tag "svg" || Text.sameIgnoringCase tag "math" with
  | none => default
  | some tag =>
    if Text.sameIgnoringCase tag "svg" then some svgNamespace else some mathNamespace

/-- The elements that a host was asked for, with their namespaces, oldest first. -/
abbrev Requests := List (String × Option String)

/-- A step of a host, beside which the requests stay as they are. -/
def besideRequests {α : Type} (x : StateT H Logged α) : StateT (H × Requests) Logged α :=
  fun (h, requests) => do
    let (a, h) ← x h
    return (a, (h, requests))

/-- The host with a record of the elements that it is asked for. -/
def Host.requested (host : Host F H N) : Host F (H × Requests) N where
  createElement tag ns := fun (h, requests) => do
    let (node, h) ← host.createElement tag ns h
    return (node, (h, requests ++ [(tag, ns)]))
  createText content := besideRequests (host.createText content)
  setAttribute node name value := besideRequests (host.setAttribute node name value)
  setFlag node name := besideRequests (host.setFlag node name)
  addListener node event handler := besideRequests (host.addListener node event handler)
  appendChild parent child := besideRequests (host.appendChild parent child)
  clearChildren node := besideRequests (host.clearChildren node)

section

variable (host : Host F H N)

private theorem value_applyAttribute_requested (node : N) (a : Attribute F) (h : H)
    (requests : Requests) : (applyAttribute host.requested node a (h, requests)).value =
      ((), (applyAttribute host node a h).value.2, requests) := by
  cases a <;> rfl

private theorem value_applyAttributes_requested (node : N) (attributes : List (Attribute F)) (h : H)
    (requests : Requests) : (applyAttributes host.requested node attributes (h, requests)).value =
      ((), (applyAttributes host node attributes h).value.2, requests) := by
  induction attributes generalizing h with
  | nil => rfl
  | cons a rest ih =>
    change (applyAttributes host.requested node rest
      (applyAttribute host.requested node a (h, requests)).value.2).value = _
    rw [value_applyAttribute_requested, ih]
    rfl

private theorem value_appendAll_requested (parent : N) (children : List N) (h : H)
    (requests : Requests) : (appendAll host.requested parent children (h, requests)).value =
      ((), (appendAll host parent children h).value.2, requests) := by
  induction children generalizing h with
  | nil => rfl
  | cons child rest ih =>
    change (appendAll host.requested parent rest
      ((host.appendChild parent child h).value.2, requests)).value = _
    rw [ih]
    rfl

private theorem value_mount_requested (takeOver : Bool) (container : Option N) (nodes : List N)
    (h : H)
    (requests : Requests) : (mount host.requested takeOver container nodes (h, requests)).value =
      ((), (mount host takeOver container nodes h).value.2, requests) := by
  match container, takeOver with
  | none, _ => rfl
  | some container, false => exact value_appendAll_requested host container nodes h requests
  | some container, true =>
    exact value_appendAll_requested host container nodes _ requests

private theorem value_assemble_requested (ns : Option String) (e : Element F (Node F))
    (children : List N)
    (h : H) (requests : Requests) :
    (assemble host.requested ns e children (h, requests)).value =
      ((assemble host ns e children h).value.1,
        (assemble host ns e children h).value.2, requests ++ [(e.tag, ns)]) := by
  have hrequest : (host.requested.createElement e.tag ns (h, requests)).value =
      ((host.createElement e.tag ns h).value.1,
        (host.createElement e.tag ns h).value.2, requests ++ [(e.tag, ns)]) := rfl
  obtain ⟨created, hcreated⟩ : ∃ created, (host.createElement e.tag ns h).value = created :=
    ⟨_, rfl⟩
  rw [hcreated] at hrequest
  obtain ⟨_ | node, h'⟩ := created
  · rw [value_assemble_none hcreated, value_assemble_none hrequest]
  · rw [value_assemble_some hcreated, value_assemble_some hrequest,
      value_applyAttributes_requested, value_appendAll_requested]

private theorem value_fallbackNodes_requested (fallback : String) (h : H) (requests : Requests) :
    (fallbackNodes host.requested fallback (h, requests)).value =
      ((fallbackNodes host fallback h).value.1,
        (fallbackNodes host fallback h).value.2, requests) := by
  unfold fallbackNodes
  cases fallback.isEmpty <;> rfl

private theorem value_backend_element (default : Option String) (e : Element F (Node F))
    (content : List (List N)) (b : HostState H) :
    ((backend host default).element e content b).value =
      ((assemble host (b.namespaces.head?.getD none) e content.flatten b.host).value.1,
        { host := (assemble host (b.namespaces.head?.getD none) e content.flatten b.host).value.2
          namespaces := b.namespaces.tail }) := rfl

private theorem value_backend_fallback (default : Option String) (fallback : String)
    (b : HostState H) :
    ((backend host default).fallback fallback b).value =
      ((fallbackNodes host fallback b.host).value.1,
        { b with host := (fallbackNodes host fallback b.host).value.2 }) := rfl

end

def namespacesAlong (default : Option String) : List (Element F (Node F)) → List (Option String)
  | [] => []
  | e :: around =>
    nearestNamespace default ((e :: around).map Element.tag) :: namespacesAlong default around

private theorem head?_namespacesAlong (default : Option String) (around : List (Element F (Node F)))
    :
    (namespacesAlong default around).head?.getD default =
      nearestNamespace default (around.map Element.tag) := by
  cases around <;> rfl

private theorem namespaceOf_along (default : Option String) (e : Element F (Node F))
    (around : List (Element F (Node F))) :
    namespaceOf default e.tag (namespacesAlong default around) =
      nearestNamespace default ((e :: around).map Element.tag) := by
  rw [namespaceOf, head?_namespacesAlong, List.map_cons, nearestNamespace, nearestNamespace,
    List.find?_cons]
  cases hsvg : Text.sameIgnoringCase e.tag "svg" with
  | true => simp [hsvg]
  | false =>
    cases hmath : Text.sameIgnoringCase e.tag "math" with
    | true => simp [hsvg]
    | false => simp

abbrev Placed (F : Type) := Element F (Node F) × List (Element F (Node F))

def Placed.ns (default : Option String) (placed : Placed F) : Option String :=
  nearestNamespace default ((placed.1 :: placed.2).map Element.tag)

/-- The backend inside of the elements `around` that notes where elements are made. -/
def placing (around : List (Element F (Node F))) : Backend F (List (Placed F)) Unit where
  empty := return ()
  text _ := return ()
  fragment _ := return ()
  element e _ := modify (· ++ [(e, around)])
  fallback _ := return ()

end Dom

section

variable (program : Program F σ) (config : Config)

/-- The state in which a walk begins that notes where elements are made. -/
def placingStart (state : σ) : WalkState σ (List (Dom.Placed F)) :=
  { state, clock := { reading := fun _ => 0 }, cache := FragmentCache.empty 0 none, backend := [] }

/-- The elements that are made until a walk of a tree ends, in the order in which they are made,
each with those around it. -/
def placedElements (node : Node F) (state : σ) : List (Dom.Placed F) :=
  ((walkAlong program config Dom.placing (config.levelsAt 1) 1 [] node).exec
    (placingStart state)).2.backend

end

/-- The elements of an outline inside of the elements `around`, each after those in its content. -/
def Outline.placed : Outline F → (around : List (Element F (Node F))) → List (Dom.Placed F)
  | .nil, _ => []
  | .text _ rest, around => rest.placed around
  | .fallback rest, around => rest.placed around
  | .element e content rest, around =>
    content.placed (e :: around) ++ (e, around) :: rest.placed around

private theorem Outline.placed_append (o o' : Outline F) (around : List (Element F (Node F))) :
    (o ++ o').placed around = o.placed around ++ o'.placed around := by
  induction o with
  | nil => rfl
  | text content rest ih => exact ih
  | fallback rest ih => exact ih
  | element e content rest _ ih =>
    simp only [element_append, placed, ih, List.append_assoc, List.cons_append]

namespace Dom

/-- The elements of the outline have been placed inside of `around`. -/
def Places (around : List (Element F (Node F))) (b b' : List (Placed F)) (_ : Unit)
    (o : Outline F) : Prop :=
  b' = b ++ o.placed around

private theorem Places.join {around : List (Element F (Node F))} {b b' : List (Placed F)}
    {us : List Unit}
    {os : List (Outline F)} (h : Chain (Places around) b b' us os) :
    b' = b ++ (Outline.join os).placed around := by
  induction h with
  | nil => exact (List.append_nil _).symm
  | cons hr _ ih => rw [ih, hr, Outline.join, Outline.placed_append, List.append_assoc]

private theorem realizesText_placing (way around : List (Element F (Node F))) (fallback : String) :
    (placing way).RealizesText fallback (Places around) where
  text b _ := (List.append_nil b).symm
  fallback b := (List.append_nil b).symm

section

variable {program : Program F σ} {config : Config} {levels depth : Nat}
  {around : List (Element F (Node F))}

private theorem tracks_placing_element {f : Node F → Walk σ (List (Placed F)) Unit}
    {g : Node F → Walk σ Unit (Outline F)} (e : Element F (Node F))
    (hbelow : ∀ n b, Walk.Tracks (WalkState.Beside config F) b (Places (e :: around) b) (f n) (g n))
    (b : List (Placed F)) :
    Walk.Tracks (WalkState.Beside config F) b (Places around b)
      (walkElement program config (placing around) f depth e)
      (walkElement program config Outline.backend g depth e) := by
  have made {b b' : List (Placed F)} {us : List Unit} {os : List (Outline F)}
      (h : Chain (Places (e :: around)) b b' us os) :
      Walk.Tracks (WalkState.Beside (σ := σ) config F) b' (Places around b)
        (Walk.onBackend ((placing around).element e us))
        (Walk.onBackend (Outline.backend.element e os)) := by
    apply tracks_onBackend
    change b' ++ [(e, around)] = b ++ ((Outline.join os).placed (e :: around) ++ [(e, around)])
    rw [Places.join h, List.append_assoc]
  cases hvalid : Markup.isValidName e.tag with
  | false =>
    rw [walkElement_invalid hvalid, walkElement_invalid hvalid]
    exact .logged _ _ (tracks_onBackend (List.append_nil b).symm)
  | true =>
    rw [walkElement_uncached hvalid rfl, walkElement_uncached hvalid rfl]
    apply tracks_countElement
    have enters : Walk.Tracks (WalkState.Beside (σ := σ) config F) b (fun b' _ _ => b' = b)
        (Walk.onBackend ((placing around).enter e)) (Walk.onBackend (Outline.backend.enter e)) :=
      tracks_onBackend rfl
    cases hvoid : Markup.isVoid e.tag with
    | true =>
      rw [buildElement_void hvoid, buildElement_void hvoid]
      apply enters.bind
      rintro _ _ _ rfl
      exact .logged _ _ (made .nil)
    | false =>
      rw [buildElement_content hvoid, buildElement_content hvoid]
      apply enters.bind
      rintro b _ _ rfl
      apply (tracks_walkDirective (realizesText_placing around (e :: around) _) e.text b).bind
      intro b₁ us os hdirective
      apply (tracks_walkEach e.childNodes (fun n _ b => hbelow n b) b₁).bind
      intro b₂ us' os' hchildren
      exact made (hdirective.append hchildren)

private theorem tracks_placing (hdepth : depth + levels = config.maxDepth + 1) (node : Node F)
    (b : List (Placed F)) :
    Walk.Tracks (WalkState.Beside config F) b (Places around b)
      (walkAlong program config placing levels depth around node)
      (outlineFrom program config levels depth node) := by
  unfold walkAlong
  rw [outlineFrom, Traversal.walkFrom_eq_visit]
  induction levels generalizing depth around node b with
  | zero => exact .logged _ _ (.throw _)
  | succ levels ih =>
    have hlevels : depth + 1 + levels = config.maxDepth + 1 := by omega
    simp only [Traversal.visitAlong, Traversal.visit]
    induction node using Node.inductOn generalizing b with
    | empty => exact tracks_onBackend (List.append_nil b).symm
    | text value => exact tracks_onBackend ((realizesText_placing around around "").text b _)
    | component c =>
      have blind := blind_invoke program config
        (blind_resolveFrom program config levels (depth + 1)) depth c
      apply (tracks_call blind b).bind
      rintro b outcome _ ⟨rfl, rfl⟩
      cases outcome with
      | ok node => exact ih hlevels node b
      | error e =>
        cases e with
        | failed cause => exact tracks_recover (realizesText_placing around around _) cause b
        | depthExceeded depth maxDepth => exact .throw _
        | config cause => exact .throw _
    | collection nodes ihnodes =>
      simp only [Traversal.visitLevel, Traversal.visitMembers_eq]
      apply (tracks_walkEach nodes ihnodes b).bind
      intro b₁ us os hchain
      exact tracks_onBackend (Places.join hchain)
    | element e _ =>
      exact tracks_placing_element e (fun n b => ih hlevels n b) b

end

end Dom

private theorem placedElements_eq_placed {program : Program F σ} {config : Config} {node : Node F}
    {state : σ} {o : Outline F} (h : (outlining program config node state).1 = .ok o) :
    placedElements program config node state = o.placed [] := by
  have agree : Walk.Agree (WalkState.Beside config F) (Dom.Places [] [])
      ((walkAlong program config Dom.placing (config.levelsAt 1) 1 [] node).exec
        (placingStart state)) (outlining program config node state) :=
    Dom.tracks_placing (Nat.add_comm _ _) node [] (placingStart state) (outlineStart state) rfl
      ⟨rfl, rfl, rfl, rfl, FragmentCache.valid_empty 0 none⟩
  unfold placedElements
  generalize (walkAlong program config Dom.placing (config.levelsAt 1) 1 [] node).exec
    (placingStart state) = p at agree ⊢
  generalize outlining program config node state = q at agree h
  cases agree with
  | error _ => cases h
  | ok hplaced _ =>
    cases h
    exact hplaced

namespace Dom

variable {default : Option String}

/-- What has been made so far is what the host was asked for so far. -/
def RequestedFor (default : Option String) (b : HostState (H × Requests))
    (placed : List (Placed F)) : Prop :=
  b.host.2 = placed.map fun p => (p.1.tag, p.ns default)

def TellsWay (default : Option String) (around : List (Element F (Node F)))
    (b : HostState (H × Requests)) : Prop :=
  b.namespaces = namespacesAlong default around

private theorem keepInStep_placing (host : Host F H N) (default : Option String) :
    KeepInStep (RequestedFor default) (TellsWay default) (fun _ _ => True)
      (fun _ : List (Element F (Node F)) => backend host.requested default) placing where
  uncached _ := ⟨rfl, rfl⟩
  empty _ _ b placed hway hrequested := ⟨trivial, hrequested, hway⟩
  text _ _ content b placed hway hrequested := ⟨trivial, hrequested, hway⟩
  fallback _ _ content b placed hway hrequested := by
    obtain ⟨⟨h, requests⟩, namespaces⟩ := b
    rw [value_backend_fallback, value_fallbackNodes_requested]
    exact ⟨trivial, hrequested, hway⟩
  fragment _ _ us vs _ b placed hway hrequested := ⟨trivial, hrequested, hway⟩
  enter around e b placed hway hrequested := by
    refine ⟨trivial, hrequested, ?_⟩
    change namespaceOf default e.tag b.namespaces :: b.namespaces = _
    rw [hway, namespaceOf_along]
    rfl
  element around e us vs _ b placed hway hrequested := by
    obtain ⟨⟨h, requests⟩, namespaces⟩ := b
    cases hway
    rw [value_backend_element, value_assemble_requested]
    refine ⟨trivial, ?_, rfl⟩
    have hbefore : requests = placed.map fun p => (p.1.tag, p.ns default) := hrequested
    change requests ++ [(e.tag, _)] = (placed ++ [(e, around)]).map _
    rw [hbefore, List.map_append]
    rfl

/-- The second state is the first one without the requests. -/
def WithoutRequests (b : HostState (H × Requests)) (b' : HostState H) : Prop :=
  b' = { host := b.host.1, namespaces := b.namespaces }

private theorem keepInStep_requested (host : Host F H N) (default : Option String) :
    KeepInStep WithoutRequests (fun _ _ => True) Eq
      (fun _ : List (Element F (Node F)) => backend host.requested default)
      (fun _ => backend host default) where
  uncached _ := ⟨rfl, rfl⟩
  empty _ _ := by
    rintro b _ - rfl
    exact ⟨rfl, rfl, trivial⟩
  text _ _ content := by
    rintro b _ - rfl
    exact ⟨rfl, rfl, trivial⟩
  fallback _ _ content := by
    rintro b _ - rfl
    rw [value_backend_fallback, value_fallbackNodes_requested]
    exact ⟨rfl, rfl, trivial⟩
  fragment _ _ us vs hsame := by
    rintro b _ - rfl
    obtain rfl : us = vs := List.forall₂_eq_eq_eq ▸ hsame
    exact ⟨rfl, rfl, trivial⟩
  enter around e := by
    rintro b _ - rfl
    exact ⟨trivial, rfl, trivial⟩
  element around e us vs hsame := by
    rintro b _ - rfl
    obtain rfl : us = vs := List.forall₂_eq_eq_eq ▸ hsame
    rw [value_backend_element, value_assemble_requested]
    exact ⟨rfl, rfl, trivial⟩

end Dom

namespace LiveRenderer

/-- The renderer with a record of the elements that its host is asked for. -/
def requested (r : LiveRenderer H) : LiveRenderer (H × Dom.Requests) :=
  { engine := r.engine, host := (r.host, []) }

section

variable (r : LiveRenderer H) (host : Dom.Host F H N) (program : Program F σ) (node : Node F)
  (world : World σ)

private theorem walked_requested : Walk.Agree (WalkState.InStep Dom.WithoutRequests) (fun _ => Eq)
    (r.requested.walked host.requested program node world) (r.walked host program node world) := by
  let start : Dom.HostState H := { host := r.host }
  let noting : Dom.HostState (H × Dom.Requests) := { host := (r.host, []) }
  have hsteps := (Dom.keepInStep_requested host r.engine.config.defaultNamespace).walkAlong program
    r.engine.config (r.engine.config.levelsAt 1) 1 [] node (b := noting) trivial
  rw [walkAlong_const, walkAlong_const] at hsteps
  have hagree := hsteps (r.engine.start world noting).2 (r.engine.start world start).2 rfl ⟨rfl, rfl⟩
  exact hagree.imp fun _ _ _ h => h.1

private theorem walked_placing : Dom.RequestedFor r.engine.config.defaultNamespace
    (r.requested.walked host.requested program node world).2.backend
    (placedElements program r.engine.config node world.state) := by
  let noting : Dom.HostState (H × Dom.Requests) := { host := (r.host, []) }
  have hsteps := (Dom.keepInStep_placing host r.engine.config.defaultNamespace).walkAlong program
    r.engine.config (r.engine.config.levelsAt 1) 1 [] node (b := noting) rfl
  rw [walkAlong_const] at hsteps
  exact (hsteps (r.engine.start world noting).2 (placingStart world.state) rfl ⟨rfl, rfl⟩).beside.2

end

/-- Whatever the host, and however a render ends, the host is asked for each element with the
namespace of the nearest `svg` or `math` among the element and those around it in the tree, or with
the default if there is none. If the tree comes to an outline, these are the elements of the
outline. -/
theorem namespaces_follow_tree (r : LiveRenderer H) (host : Dom.Host F H N)
    (program : Program F σ) (node : Node F) (container : Option N) (world : World σ) :
    let plain := (r.render host program node container world).value
    let noted := (r.requested.render host.requested program node container world).value
    noted.result = plain.result ∧ noted.renderer.host.1 = plain.renderer.host ∧
    (noted.renderer.host.2 = (placedElements program r.engine.config node world.state).map
      fun p => (p.1.tag, p.ns r.engine.config.defaultNamespace)) ∧
    ∀ o, (outlining program r.engine.config node world.state).1 = .ok o →
      placedElements program r.engine.config node world.state = o.placed [] := by
  intro plain noted
  have hplaced := r.walked_placing host program node world
  have agree := r.walked_requested host program node world
  have hplain : plain = _ := value_render program node container world
  have hnoted : noted = _ := value_render program node container world
  rw [hplain, hnoted]
  generalize r.requested.walked host.requested program node world = p at agree hplaced ⊢
  generalize r.walked host program node world = q at agree ⊢
  cases agree with
  | @error e s t hstates =>
    have hhost : t.backend = _ := hstates.2
    refine ⟨rfl, ?_, hplaced, fun _ => placedElements_eq_placed⟩
    change s.backend.host.1 = t.backend.host
    rw [hhost]
  | @ok nodes nodes' s t hsame hstates =>
    have hhost : t.backend = _ := hstates.2
    cases hsame
    have hmount := Dom.value_mount_requested host r.engine.config.enableHydration container nodes
      s.backend.host.1 s.backend.host.2
    refine ⟨rfl, ?_, ?_, fun _ => placedElements_eq_placed⟩
    · change (Dom.mount host.requested r.engine.config.enableHydration container nodes
        s.backend.host).value.2.1 = (Dom.mount host _ container nodes t.backend.host).value.2
      rw [hhost, hmount]
    · change (Dom.mount host.requested r.engine.config.enableHydration container nodes
        s.backend.host).value.2.2 = _
      rw [hmount]
      exact hplaced

example :
    let drawing : Node String := .element <| ((Element.new "SVG").child
      (.component (.producer "tick"))).child (.element <| (Element.new "foreignObject").withChild
        (.element <| (Element.new "math").withChild (.element (Element.new "mi"))))
    let page : Node String := .collection [drawing, .element (Element.new "br")]
    (placedElements Program.counting {} page 0).map (fun p => (p.1.tag, p.ns (some "default"))) =
      [("mi", some Dom.mathNamespace), ("math", some Dom.mathNamespace),
        ("foreignObject", some Dom.svgNamespace), ("SVG", some Dom.svgNamespace),
        ("br", some "default")] := by
  decide +kernel

end LiveRenderer

end TreeRender
