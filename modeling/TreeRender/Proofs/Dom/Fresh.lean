import TreeRender.Proofs.Dom.Parity
import TreeRender.Proofs.Walk.Closed
import TreeRender.Proofs.Walk.Making

/-!
# Live nodes are made anew

A render makes trees of nodes that were not there before, each of which has one place. The walk
links new nodes to each other only, so what was there before stays as it is however the walk ends;
the container is the one older node that a render changes, and only after the walk has succeeded.
-/

namespace TreeRender

variable {F N σ : Type}

namespace Dom

/-- What a container comes to when nodes are put into it. Texts hold none. -/
def LiveNode.holding (takeOver : Bool) (nodes : List NodeId) : LiveNode F → LiveNode F
  | .text content => .text content
  | .element live =>
    .element { live with children := (if takeOver then [] else live.children) ++ nodes }

namespace Document

/-- The trees with the given roots consist of the nodes `all`, each listed as often as it occurs, in
document order. -/
inductive Spans (d : Document F) : (roots all : List NodeId) → Prop
  | nil : Spans d [] []
  | cons {id roots below rest} : id < d.nodes.size → Spans d (d.children id) below →
    Spans d roots rest → Spans d (id :: roots) (id :: (below ++ rest))

theorem Keeps.children_eq {first id : NodeId} {d d' : Document F} (h : Keeps first d d')
    (hid : first ≤ id) (hlt : id < d.nodes.size) : d'.children id = d.children id := by
  have hnode : d.nodes[id]? = some d.nodes[id] := Array.getElem?_eq_getElem hlt
  simp only [children, element?, hnode, h id _ hid hnode]

theorem children_create_element (d : Document F) (live : LiveElement F) :
    (d.create (.element live)).children d.nodes.size = live.children := by
  simp only [children, element?, getElem?_create, Option.map_some, Option.getD_some]

theorem children_create_text (d : Document F) (content : String) :
    (d.create (.text content)).children d.nodes.size = [] := by
  simp only [children, element?, getElem?_create, Option.map_none, Option.getD_none]

namespace Spans

variable {d d' : Document F} {first : NodeId} {roots roots' all all' : List NodeId}

theorem keeps (h : d.Spans roots all) (hkeeps : Keeps first d d')
    (hfirst : ∀ id ∈ all, first ≤ id) : d'.Spans roots all := by
  induction h with
  | nil => exact .nil
  | @cons id roots below rest hid _ _ ihbelow ihrest =>
    have hnode := hkeeps id _ (hfirst id (by simp)) (Array.getElem?_eq_getElem hid)
    refine .cons (lt_size hnode) ?_ (ihrest fun i hi => hfirst i (by simp [hi]))
    rw [hkeeps.children_eq (hfirst id (by simp)) hid]
    exact ihbelow fun i hi => hfirst i (by simp [hi])

theorem append (h : d.Spans roots all) (h' : d.Spans roots' all') :
    d.Spans (roots ++ roots') (all ++ all') := by
  induction h with
  | nil => exact h'
  | @cons id roots below rest hid hbelow _ _ ihrest =>
    rw [List.cons_append, List.cons_append, List.append_assoc]
    exact .cons hid hbelow ihrest

theorem subset (h : d.Spans roots all) : roots ⊆ all := by
  induction h with
  | nil => exact List.Subset.refl _
  | cons _ _ _ _ ihrest =>
    exact List.cons_subset_cons _ (List.subset_append_of_subset_right _ ihrest)

theorem perm (h : d.Spans roots all) : (roots ++ all.flatMap d.children).Perm all := by
  induction h with
  | nil => exact .refl _
  | @cons id roots below rest _ _ _ ihbelow ihrest =>
    refine .cons id ?_
    rw [List.flatMap_cons, List.flatMap_append]
    calc roots ++ (d.children id ++ (below.flatMap d.children ++ rest.flatMap d.children))
      _ = roots ++ ((d.children id ++ below.flatMap d.children) ++ rest.flatMap d.children) := by
        rw [List.append_assoc]
      _ |>.Perm ((d.children id ++ below.flatMap d.children) ++
          (roots ++ rest.flatMap d.children)) := List.perm_append_comm_assoc ..
      _ |>.Perm (below ++ rest) := ihbelow.append ihrest

private theorem notMem_children (h : d.Spans roots all) (hnodup : all.Nodup) :
    ∀ id ∈ all, id ∉ d.children id := by
  induction h with
  | nil => exact fun _ hid => nomatch hid
  | @cons id roots below rest _ hbelow _ ihbelow ihrest =>
    obtain ⟨hid, hrest⟩ := List.nodup_cons.1 hnodup
    obtain ⟨hbelow', hrest', -⟩ := List.nodup_append.1 hrest
    intro other hother
    rcases List.mem_cons.1 hother with rfl | hother
    · exact fun hchild => hid (List.mem_append_left _ (hbelow.subset hchild))
    · exact (List.mem_append.1 hother).elim (ihbelow hbelow' other) (ihrest hrest' other)

end Spans

/-- A document grows by trees of new nodes, each of which occurs once in them. -/
structure Grows (d d' : Document F) (roots all : List NodeId) : Prop where
  keeps : Keeps 0 d d'
  spans : d'.Spans roots all
  fresh : all.Perm (List.range' d.nodes.size all.length)
  size : d'.nodes.size = d.nodes.size + all.length
  created : d'.created = d.created + all.length

namespace Grows

variable {d d₁ d₂ : Document F} {roots roots' all all' : List NodeId}

theorem nil (d : Document F) : d.Grows d [] [] := ⟨.refl 0 d, .nil, .refl _, rfl, rfl⟩

theorem mem_iff (h : d.Grows d₁ roots all) (id : NodeId) :
    id ∈ all ↔ d.nodes.size ≤ id ∧ id < d₁.nodes.size := by
  rw [h.fresh.mem_iff, List.mem_range'_1, h.size]

theorem nodup (h : d.Grows d₁ roots all) : all.Nodup := h.fresh.nodup_iff.2 List.nodup_range'

theorem roots_lt (h : d.Grows d₁ roots all) (id : NodeId) (hid : id ∈ roots) :
    id < d₁.nodes.size := ((h.mem_iff id).1 (h.spans.subset hid)).2

theorem append (h : d.Grows d₁ roots all) (h' : d₁.Grows d₂ roots' all') :
    d.Grows d₂ (roots ++ roots') (all ++ all') where
  keeps := h.keeps.trans h'.keeps
  spans := (h.spans.keeps h'.keeps fun _ _ => Nat.zero_le _).append h'.spans
  fresh := by
    have hlater := h'.fresh
    rw [h.size] at hlater
    rw [List.length_append, ← List.range'_append_1]
    exact h.fresh.append hlater
  size := by rw [h'.size, h.size, List.length_append, Nat.add_assoc]
  created := by rw [h'.created, h.created, List.length_append, Nat.add_assoc]

theorem create (h : d.Grows d₁ roots all) {node : LiveNode F}
    (hchildren : (d₁.create node).children d₁.nodes.size = roots) :
    d.Grows (d₁.create node) [d₁.nodes.size] (d₁.nodes.size :: all) where
  keeps := h.keeps.trans (d₁.keeps_create node)
  spans := by
    have hbelow := h.spans.keeps (d₁.keeps_create node) fun _ _ => Nat.zero_le _
    rw [← hchildren] at hbelow
    have hsingle := Spans.cons (lt_size (d₁.getElem?_create node)) hbelow .nil
    rwa [List.append_nil] at hsingle
  fresh := by
    rw [List.length_cons, List.range'_1_concat, ← h.size]
    exact (h.fresh.cons _).trans (List.perm_append_singleton _ _).symm
  size := by
    change (d₁.nodes.push node).size = _
    rw [Array.size_push, h.size, List.length_cons, Nat.add_assoc]
  created := by
    change d₁.created + 1 = _
    rw [h.created, List.length_cons, Nat.add_assoc]

end Grows

section

variable {d : Document F} {id : NodeId} {live : LiveElement F} {nodes : List NodeId}
  (takeOver : Bool)

private theorem value_appendAll_text (h : d.element? id = none) (hne : ∀ n ∈ nodes, id ≠ n) :
    (appendAll host id nodes d).value = ((), d) := by
  induction nodes with
  | nil => rfl
  | cons n rest ih =>
    change (appendAll host id rest (appendChild id n d).value.2).value = _
    rw [value_appendChild_text h (hne n (by simp)), ih fun m hm => hne m (by simp [hm])]

private theorem value_mount_element (h : d.element? id = some live) (hne : ∀ n ∈ nodes, id ≠ n) :
    (mount host takeOver (some id) nodes d).value = ((), d.update id
      { live with children := (if takeOver then [] else live.children) ++ nodes }) := by
  cases takeOver with
  | false => exact value_appendAll h hne
  | true =>
    have hcleared : (clearChildren id d).value = ((), d.update id { live with children := [] }) :=
      value_change h (fun e => { e with children := [] }) (pure ())
    change (appendAll host id nodes (clearChildren id d).value.2).value = _
    rw [hcleared, value_appendAll (element?_update h _) hne, update_update]
    rfl

private theorem value_mount_text (h : d.element? id = none) (hne : ∀ n ∈ nodes, id ≠ n) :
    (mount host takeOver (some id) nodes d).value = ((), d) := by
  cases takeOver with
  | false => exact value_appendAll_text h hne
  | true =>
    have hcleared : (clearChildren id d).value = ((), d) :=
      value_change_none h (fun e => { e with children := [] }) (pure ())
    change (appendAll host id nodes (clearChildren id d).value.2).value = _
    rw [hcleared, value_appendAll_text h hne]

private theorem mount_into {node : LiveNode F} (hnode : d.nodes[id]? = some node)
    (hne : ∀ n ∈ nodes, id ≠ n) :
    let d' := (mount host takeOver (some id) nodes d).value.2
    d'.nodes.size = d.nodes.size ∧ d'.created = d.created ∧
      d'.nodes[id]? = some (node.holding takeOver nodes) := by
  intro d'
  cases node with
  | text content =>
    have helement : d.element? id = none := by simp only [element?, hnode]
    have hmount : d' = d := congrArg Prod.snd (value_mount_text takeOver helement hne)
    rw [hmount]
    exact ⟨rfl, rfl, hnode⟩
  | element live =>
    have helement : d.element? id = some live := by simp only [element?, hnode]
    have hmount : d' = d.update id _ :=
      congrArg Prod.snd (value_mount_element takeOver helement hne)
    rw [hmount]
    exact ⟨Array.size_setIfInBounds, rfl, Array.getElem?_setIfInBounds_self_of_lt (lt_size hnode)⟩

theorem mount_frames {container : Option NodeId}
    (hcontainer : ∀ id, container = some id → id < d.nodes.size)
    (hne : ∀ id, container = some id → ∀ n ∈ nodes, id ≠ n) :
    let d' := (mount host takeOver container nodes d).value.2
    d'.nodes.size = d.nodes.size ∧ d'.created = d.created ∧
    ∀ id node, d.nodes[id]? = some node → d'.nodes[id]? =
      some (if container = some id then node.holding takeOver nodes else node) := by
  intro d'
  cases container with
  | none => exact ⟨rfl, rfl, fun _ _ hnode => hnode⟩
  | some id =>
    have hothers : ChangesOnly id d d' := changesOnly_mount id d takeOver nodes
    have held : d.nodes[id]? = some _ := Array.getElem?_eq_getElem (hcontainer id rfl)
    obtain ⟨hsize, hcreated, hinto⟩ := mount_into takeOver held (hne id rfl)
    refine ⟨hsize, hcreated, fun other node hnode => ?_⟩
    by_cases heq : other = id
    · subst heq
      cases held.symm.trans hnode
      rw [if_pos rfl]
      exact hinto
    · have hdifferent : some id ≠ some other := fun h => heq (Option.some.inj h).symm
      rw [if_neg hdifferent, hothers other heq, hnode]

end

end Document

private theorem stepsWithin_keeps (default : Option String) :
    (backend Document.host default : Backend F (HostState (Document F)) (List NodeId)).StepsWithin
      (σ := σ) (fun _ => True) fun s t => s.backend.host.Keeps 0 t.backend.host where
  toHereditary := Node.hereditary_true
  refl s := .refl 0 _
  trans h h' := h.trans h'
  scene s _ := .refl 0 _
  clock s _ := .refl 0 _
  lookUp h := nomatch h
  store h := nomatch h
  operation := by
    intro α x hx s
    cases hx with
    | empty => exact .refl 0 _
    | text content => exact s.backend.host.keeps_create _
    | fragment units => exact .refl 0 _
    | enter _ _ => exact .refl 0 _
    | @element e content _ _ => exact s.backend.host.keeps_assemble _ e content.flatten
    | fallback fallback => exact ((builds_mirrors fallback).fallbackNodes s.backend.host).1
    | fromCache fragment => exact .refl 0 _
    | toCache unit => exact .refl 0 _

private theorem builds_grown (fallback : String) :
    Document.Builds (F := F) fallback fun d d' roots _ => ∃ all, d.Grows d' roots all where
  nil d := ⟨[], .nil d⟩
  append := by
    rintro d d₁ d₂ roots roots' - - ⟨all, h⟩ ⟨all', h'⟩
    exact ⟨all ++ all', h.append h'⟩
  text d content := ⟨_, (Document.Grows.nil d).create (d.children_create_text content)⟩
  noFallback _ d := ⟨[], .nil d⟩
  fallback _ d := ⟨_, (Document.Grows.nil d).create (d.children_create_text fallback)⟩
  lt_size := by
    rintro d d₁ roots - ⟨all, h⟩
    exact h.roots_lt
  element := by
    rintro d d₁ roots - e ns ⟨all, h⟩
    exact ⟨_, h.create (d₁.children_create_element _)⟩

end Dom

namespace LiveRenderer

open Dom (NodeId)

variable {config : Config} {r : LiveRenderer (Dom.Document F)}

theorem ends_walked {H N : Type} {host : Dom.Host F H N} (r : LiveRenderer H)
    {E : WalkState σ (Dom.HostState H) → WalkState σ (Dom.HostState H) → Prop}
    {R : WalkState σ (Dom.HostState H) → WalkState σ (Dom.HostState H) → List (List N) → Prop}
    (h : (Dom.backend host r.engine.config.defaultNamespace).Makes r.engine.config.errorFallback E R)
    (program : Program F σ) (node : Node F) (world : World σ) :
    let start := (r.engine.start world ({ host := r.host } : Dom.HostState H)).2
    Walk.Ends (E start) (fun nodes t => R start t [nodes]) (r.walked host program node world) :=
  (h.ofBackend program rfl).walkFrom (r.engine.config.levelsAt 1) 1 node _

private theorem keeps_walked (r : LiveRenderer (Dom.Document F)) (program : Program F σ)
    (node : Node F)
    (world : World σ) :
    r.host.Keeps 0 (r.walked Dom.Document.host program node world).2.backend.host :=
  (Dom.stepsWithin_keeps r.engine.config.defaultNamespace).closed.walk trivial
    (r.engine.start world ({ host := r.host } : Dom.HostState (Dom.Document F))).2

/-- A render that fails leaves every node as it was. One that succeeds gives the roots of trees that
consist of all nodes that are new: each of these occurs once, as a root or as the child of another
one. Of the older nodes only the container is changed, which then holds the roots after what it held
before, unless that is taken over. -/
theorem renders_anew (hr : r.Reachable Dom.Document.host config) (program : Program F σ)
    (node : Node F) (container : Option NodeId)
    (hcontainer : ∀ id, container = some id → id < r.host.nodes.size) (world : World σ) :
    let out := (r.render Dom.Document.host program node container world).value
    let d := out.renderer.host
    (∀ e, out.result = .error e →
      ∀ (id : NodeId) old, r.host.nodes[id]? = some old → d.nodes[id]? = some old) ∧
    ∀ roots, out.result = .ok roots → ∃ all, d.Spans roots all ∧ all.Nodup ∧
      (∀ id, id ∈ all ↔ r.host.nodes.size ≤ id ∧ id < d.nodes.size) ∧
      (roots ++ all.flatMap d.children).Perm all ∧ (∀ id ∈ all, id ∉ d.children id) ∧
      d.created = r.host.created + all.length ∧
      ∀ (id : NodeId) old, r.host.nodes[id]? = some old → d.nodes[id]? =
        some (if container = some id then old.holding config.enableHydration roots else old) := by
  intro out d
  have hsound : r.Sound F config := hr.sound
  have hkeeps := r.keeps_walked program node world
  have agree := hsound.agree ((Dom.builds_grown _).realizes _) program node world
  simp only [d, out, value_render, hsound.configured]
  generalize r.walked Dom.Document.host program node world = p at agree hkeeps ⊢
  generalize outlining program config node world.state = q at agree
  cases agree with
  | error _ =>
    exact ⟨fun _ _ id old => hkeeps id old (Nat.zero_le id), nofun⟩
  | @ok roots o s t hgrown _ =>
    refine ⟨nofun, fun roots' h => ?_⟩
    cases h
    obtain ⟨all, hgrows⟩ := hgrown
    have hnew (id : NodeId) (hid : id ∈ all) : r.host.nodes.size ≤ id :=
      ((hgrows.mem_iff id).1 hid).1
    have hne (id : NodeId) (hid : container = some id) (n : NodeId) (hn : n ∈ roots) : id ≠ n :=
      Nat.ne_of_lt (Nat.lt_of_lt_of_le (hcontainer id hid) (hnew n (hgrows.spans.subset hn)))
    have hkept (id : NodeId) (hid : container = some id) : id < s.backend.host.nodes.size :=
      Nat.lt_of_lt_of_le (hcontainer id hid) hgrows.keeps.size_le
    obtain ⟨hsize, hcreated, hnodes⟩ :=
      Dom.Document.mount_frames config.enableHydration hkept hne
    have hspans := hgrows.spans.keeps (Dom.Document.keeps_mount hcontainer config.enableHydration
      roots s.backend.host) hnew
    refine ⟨all, hspans, hgrows.nodup, fun id => ?_, hspans.perm,
      hspans.notMem_children hgrows.nodup, hcreated.trans hgrows.created, fun id old hold => ?_⟩
    · exact (hgrows.mem_iff id).trans (by rw [← hsize]; rfl)
    · exact hnodes id old (hgrows.keeps id old (Nat.zero_le id) hold)

def textPage : Dom.Document String where
  nodes := #[.element { tag := "main", children := [1] }, .text "old"]
  created := 2

theorem renders_anew_counting :
    ∃ out roots all, out = ((fresh {} textPage).render Dom.Document.host Program.counting
        countingButton (some 0) { state := 0, clock := { reading := id } }).value ∧
      out.result = .ok roots ∧ out.renderer.host.Spans roots all ∧ all.Nodup ∧
      out.renderer.host.created = 2 + all.length ∧ out.renderer.host.children 0 = 1 :: roots := by
  have hr : (fresh {} textPage).Reachable Dom.Document.host {} := .new rfl
  have hcontainer (id : NodeId) (h : some 0 = some id) : id < textPage.nodes.size := by
    cases h
    decide
  have hnew := renders_anew hr Program.counting countingButton (some 0) hcontainer
    { state := 0, clock := { reading := id } }
  have hok : ((fresh {} textPage).render Dom.Document.host Program.counting countingButton (some 0)
      { state := 0, clock := { reading := id } }).value.result.toOption.isSome = true := by
    decide +kernel
  generalize ((fresh {} textPage).render Dom.Document.host Program.counting countingButton (some 0)
    { state := 0, clock := { reading := id } }).value = out at hnew hok ⊢
  cases hresult : out.result with
  | error e =>
    rw [hresult] at hok
    cases hok
  | ok roots =>
    obtain ⟨all, hspans, hnodup, -, -, -, hcreated, hnodes⟩ := hnew.2 roots hresult
    refine ⟨out, roots, all, rfl, hresult, hspans, hnodup, hcreated, ?_⟩
    have hmain := hnodes 0 _ rfl
    simp only [Dom.Document.children, Dom.Document.element?, hmain]
    rfl

end LiveRenderer

end TreeRender
