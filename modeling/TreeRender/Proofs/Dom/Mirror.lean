import TreeRender.Proofs.Dom.Assemble
import TreeRender.Proofs.Outline.Realize

/-!
# Live nodes that mirror an outline

Live nodes mirror an outline if they show its texts and elements in order. What rendering makes
mirrors the outline of the tree, in nodes of its own: each is newer than its children, and none of
the nodes that were there before takes part.
-/

namespace TreeRender

variable {F N σ : Type}

/-- The listeners that an element asks for: its handlers under keys that name an event. -/
def Element.bound (e : Element F N) : List (Dom.Listener F) :=
  e.attributes.filterMap fun
    | (key, .handler handler) => (eventType? key).map (⟨·, handler⟩)
    | _ => none

private theorem Element.filterMap_bound? (e : Element F N) :
    e.mapped.filterMap Attribute.bound? = e.bound := by
  unfold mapped bound
  rw [List.filterMap_filterMap]
  congr 1
  funext entry
  obtain ⟨key, value⟩ := entry
  cases value with
  | bool b => cases b <;> rfl
  | handler handler => cases h : eventType? key <;> simp [Attribute.ofValue?, h, Attribute.bound?]
  | _ => rfl

namespace Dom

/-- A live element has the tag, the attributes and the listeners of its source. -/
structure LiveElement.Shows (live : LiveElement F) (e : Element F N) : Prop where
  tag : live.tag = e.tag
  attributes : live.attributes = setAll (e.mapped.filterMap Attribute.stored?) []
  listeners : live.listeners = e.bound

private theorem LiveElement.shows_foldl_put (e : Element F N) (ns : Option String)
    (children : List NodeId) :
    Shows { e.mapped.foldl put { tag := e.tag, ns } with children } e := by
  obtain ⟨htag, hattributes, hlisteners, -⟩ := foldl_put { tag := e.tag, ns } e.mapped
  exact ⟨htag, hattributes, by rw [hlisteners, List.nil_append, e.filterMap_bound?]⟩

namespace Document

/-- The nodes `ids` of the document mirror an outline. All nodes that take part are `first` or
later, and children are older than their parents. -/
inductive Mirrors (fallback : String) (d : Document F) (first : Nat) :
    List NodeId → Outline F → Prop
  | nil : Mirrors fallback d first [] .nil
  | text {id ids content rest} : first ≤ id → d.nodes[id]? = some (.text content) →
    Mirrors fallback d first ids rest → Mirrors fallback d first (id :: ids) (.text content rest)
  | noFallback {ids rest} : fallback = "" → Mirrors fallback d first ids rest →
    Mirrors fallback d first ids (.fallback rest)
  | fallback {id ids rest} : fallback ≠ "" → first ≤ id → d.nodes[id]? = some (.text fallback) →
    Mirrors fallback d first ids rest → Mirrors fallback d first (id :: ids) (.fallback rest)
  | element {id live ids e content rest} : first ≤ id → d.nodes[id]? = some (.element live) →
    live.Shows e → (∀ child ∈ live.children, child < id) →
    Mirrors fallback d first live.children content → Mirrors fallback d first ids rest →
    Mirrors fallback d first (id :: ids) (.element e content rest)

namespace Mirrors

variable {fallback : String} {d d' : Document F} {first : Nat} {ids ids' : List NodeId}
  {o o' : Outline F}

theorem keeps (h : d.Mirrors fallback first ids o) (hkeeps : Keeps first d d') :
    d'.Mirrors fallback first ids o := by
  induction h with
  | nil => exact .nil
  | text hid hnode _ ih => exact .text hid (hkeeps _ _ hid hnode) ih
  | noFallback hempty _ ih => exact .noFallback hempty ih
  | fallback hempty hid hnode _ ih => exact .fallback hempty hid (hkeeps _ _ hid hnode) ih
  | element hid hnode hshows hchildren _ _ ihc ih =>
    exact .element hid (hkeeps _ _ hid hnode) hshows hchildren ihc ih

theorem mono {later : Nat} (h : d.Mirrors fallback later ids o) (hle : first ≤ later) :
    d.Mirrors fallback first ids o := by
  induction h with
  | nil => exact .nil
  | text hid hnode _ ih => exact .text (Nat.le_trans hle hid) hnode ih
  | noFallback hempty _ ih => exact .noFallback hempty ih
  | fallback hempty hid hnode _ ih => exact .fallback hempty (Nat.le_trans hle hid) hnode ih
  | element hid hnode hshows hchildren _ _ ihc ih =>
    exact .element (Nat.le_trans hle hid) hnode hshows hchildren ihc ih

theorem append (h : d.Mirrors fallback first ids o) (h' : d.Mirrors fallback first ids' o') :
    d.Mirrors fallback first (ids ++ ids') (o ++ o') := by
  induction h with
  | nil => exact h'
  | text hid hnode _ ih => exact .text hid hnode ih
  | noFallback hempty _ ih => exact .noFallback hempty ih
  | fallback hempty hid hnode _ ih => exact .fallback hempty hid hnode ih
  | element hid hnode hshows hchildren hcontent _ _ ih =>
    exact .element hid hnode hshows hchildren hcontent ih

theorem lt_size (h : d.Mirrors fallback first ids o) : ∀ id ∈ ids, id < d.nodes.size := by
  induction h with
  | nil => exact fun _ hid => nomatch hid
  | text _ hnode _ ih => exact List.forall_mem_cons.2 ⟨Document.lt_size hnode, ih⟩
  | noFallback _ _ ih => exact ih
  | fallback _ _ hnode _ ih => exact List.forall_mem_cons.2 ⟨Document.lt_size hnode, ih⟩
  | element _ hnode _ _ _ _ _ ih => exact List.forall_mem_cons.2 ⟨Document.lt_size hnode, ih⟩

end Mirrors

end Document

/-- What relates a document before and after the nodes `ids` are made in it to an outline is built
up as rendering builds nodes up. -/
structure Document.Builds (fallback : String)
    (R : Document F → Document F → List NodeId → Outline F → Prop) : Prop where
  nil : ∀ d, R d d [] .nil
  append : ∀ {d d₁ d₂ ids ids' o o'}, R d d₁ ids o → R d₁ d₂ ids' o' →
    R d d₂ (ids ++ ids') (o ++ o')
  text : ∀ d content, R d (d.create (.text content)) [d.nodes.size] (.text content .nil)
  noFallback : fallback = "" → ∀ d, R d d [] (.fallback .nil)
  fallback : fallback ≠ "" → ∀ d,
    R d (d.create (.text fallback)) [d.nodes.size] (.fallback .nil)
  lt_size : ∀ {d d₁ ids o}, R d d₁ ids o → ∀ id ∈ ids, id < d₁.nodes.size
  element : ∀ {d d₁ ids content} (e : Element F (Node F)) ns, R d d₁ ids content →
    R d (d₁.create (.element { e.mapped.foldl LiveElement.put { tag := e.tag, ns } with
      children := ids })) [d₁.nodes.size] (.element e content .nil)

namespace Document.Builds

variable {fallback : String} {R : Document F → Document F → List NodeId → Outline F → Prop}
  (h : Builds fallback R)

include h

private theorem flatten {b b' : HostState (Document F)} {units : List (List NodeId)}
    {os : List (Outline F)}
    (hchain : Chain (fun b b' ids o => R b.host b'.host ids o) b b' units os) :
    R b.host b'.host units.flatten (.join os) := by
  induction hchain with
  | nil => exact h.nil _
  | cons hunit _ ih => exact h.append hunit ih

theorem fallbackNodes (d : Document F) :
    R d (Dom.fallbackNodes Document.host fallback d).value.2
      (Dom.fallbackNodes Document.host fallback d).value.1 (.fallback .nil) := by
  unfold Dom.fallbackNodes
  cases hempty : fallback.isEmpty with
  | true => exact h.noFallback (String.isEmpty_iff.1 hempty) d
  | false =>
    refine h.fallback ?_ d
    intro heq
    rw [heq] at hempty
    cases hempty

theorem realizes (default : Option String) :
    (backend Document.host default : Backend F (HostState (Document F)) (List NodeId)).Realizes
      fallback (fun b b' ids o => R b.host b'.host ids o) where
  text b content := h.text b.host content
  fallback b := h.fallbackNodes b.host
  empty b := h.nil b.host
  fragment hchain := h.flatten hchain
  element {b b₁ us os} e hvalid _ hchain := by
    -- Entering an element changes the namespaces only.
    have hentered := h.flatten hchain
    have hcontent : R b.host b₁.host us.flatten (.join os) := hentered
    have hassembled := value_assemble hvalid b₁.host (b₁.namespaces.head?.getD none)
      (h.lt_size hcontent)
    change R b.host (assemble Document.host _ e us.flatten b₁.host).value.2
      (assemble Document.host _ e us.flatten b₁.host).value.1 _
    rw [hassembled]
    exact h.element e _ hcontent
  restore h := nomatch h
  store h := nomatch h

end Document.Builds

/-- What rendering has made between two states of the host mirrors an outline. -/
def Made (fallback : String) (b b' : HostState (Document F)) (ids : List NodeId)
    (o : Outline F) : Prop :=
  b.host.Keeps 0 b'.host ∧ b'.host.Mirrors fallback b.host.nodes.size ids o

theorem builds_mirrors (fallback : String) :
    Document.Builds (F := F) fallback fun d d' ids o =>
      d.Keeps 0 d' ∧ d'.Mirrors fallback d.nodes.size ids o where
  nil d := ⟨.refl 0 d, .nil⟩
  append h h' :=
    ⟨h.1.trans h'.1, (h.2.keeps (h'.1.mono (Nat.zero_le _))).append (h'.2.mono h.1.size_le)⟩
  text d content := ⟨d.keeps_create _, .text (Nat.le_refl _) (d.getElem?_create _) .nil⟩
  noFallback hempty d := ⟨.refl 0 d, .noFallback hempty .nil⟩
  fallback hsome d :=
    ⟨d.keeps_create _, .fallback hsome (Nat.le_refl _) (d.getElem?_create _) .nil⟩
  lt_size h := h.2.lt_size
  element := by
    rintro d d₁ ids content e ns ⟨hkeeps, hmirrors⟩
    refine ⟨hkeeps.trans (d₁.keeps_create _), ?_⟩
    refine .element hkeeps.size_le (d₁.getElem?_create _) (LiveElement.shows_foldl_put e ns ids)
      hmirrors.lt_size ?_ .nil
    exact hmirrors.keeps ((d₁.keeps_create _).mono (Nat.zero_le _))

theorem realizes (fallback : String) (default : Option String) :
    (backend Document.host default : Backend F (HostState (Document F)) (List NodeId)).Realizes
      fallback (Made fallback) :=
  (builds_mirrors fallback).realizes default

end Dom

end TreeRender
