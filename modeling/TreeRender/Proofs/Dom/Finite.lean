import Mathlib.Data.List.Perm.Subperm
import TreeRender.Proofs.Dom.Acyclic

/-!
# Reading live nodes to their end

The text and the markup of a live node are made of what is below it, except that void elements have
no content in markup. Both are told by rules that know no bound on the levels, and that give a node
something only if reading it comes to an end. In a document without cycles it always does, and
elsewhere it does not.
-/

namespace TreeRender.Dom

variable {F : Type}

structure Format (F : Type) where
  text : String → String
  /-- Whether the content of an element is written. -/
  enters : LiveElement F → Bool
  /-- The element around its content, or around nothing if that is not written. -/
  element : LiveElement F → String → String

def Format.plain : Format F where
  text content := content
  enters _ := true
  element _ inner := inner

def LiveElement.openTag (live : LiveElement F) : String :=
  "<" ++ live.tag ++ String.join (live.attributes.map Document.attributeHtml) ++ ">"

def Format.html : Format F where
  text := Markup.escape
  enters live := !Markup.isVoid live.tag
  element live inner :=
    if Markup.isVoid live.tag then live.openTag
    else live.openTag ++ inner ++ "</" ++ live.tag ++ ">"

namespace Document

inductive Reads (d : Document F) (format : Format F) : List NodeId → String → Prop
  | nil : Reads d format [] ""
  | text {id content rest more} : d.nodes[id]? = some (.text content) → Reads d format rest more →
    Reads d format (id :: rest) (format.text content ++ more)
  | passed {id live rest more} : d.nodes[id]? = some (.element live) → format.enters live = false →
    Reads d format rest more → Reads d format (id :: rest) (format.element live "" ++ more)
  | entered {id live inner rest more} : d.nodes[id]? = some (.element live) →
    format.enters live = true → Reads d format live.children inner → Reads d format rest more →
    Reads d format (id :: rest) (format.element live inner ++ more)

def readFrom (d : Document F) (format : Format F) : (levels : Nat) → NodeId → String
  | 0, _ => ""
  | levels + 1, id =>
    match d.nodes[id]? with
    | none => ""
    | some (.text content) => format.text content
    | some (.element live) =>
      if format.enters live then
        format.element live (String.join (live.children.map (d.readFrom format levels)))
      else format.element live ""

/-- All below a node is within so many levels, itself included. -/
inductive Within (d : Document F) : Nat → NodeId → Prop
  | intro {levels id} : id < d.nodes.size → (∀ child, d.Holds id child → Within d levels child) →
    Within d (levels + 1) id

variable {d : Document F} {id : NodeId}

private theorem Acyclic.within_of_below (h : d.Acyclic) (hclosed : d.Closed) {levels : Nat}
    {above : List NodeId} (hnodup : above.Nodup)
    (habove : ∀ a ∈ above, a < d.nodes.size ∧ d.Below a id) (hid : id < d.nodes.size)
    (hlevels : d.nodes.size ≤ levels + above.length) : d.Within levels id := by
  induction levels generalizing id above with
  | zero =>
    have hlonger : (id :: above).Nodup :=
      List.nodup_cons.2 ⟨fun hmem => h id (habove id hmem).2, hnodup⟩
    have hsubset : id :: above ⊆ List.range d.nodes.size := fun a ha =>
      List.mem_range.2 ((List.mem_cons.1 ha).elim (· ▸ hid) fun ha => (habove a ha).1)
    have hlength := (hlonger.subperm hsubset).length_le
    rw [List.length_range, List.length_cons] at hlength
    omega
  | succ levels ih =>
    refine .intro hid fun child hholds => ?_
    have hlonger : (id :: above).Nodup :=
      List.nodup_cons.2 ⟨fun hmem => h id (habove id hmem).2, hnodup⟩
    refine ih hlonger (List.forall_mem_cons.2 ⟨⟨hid, .single hholds⟩, fun a ha => ?_⟩)
      (hclosed id child hholds) ?_
    · exact ⟨(habove a ha).1, (habove a ha).2.tail hholds⟩
    · rw [List.length_cons]
      omega

private theorem Acyclic.within (h : d.Acyclic) (hclosed : d.Closed) (hid : id < d.nodes.size) :
    d.Within d.nodes.size id :=
  h.within_of_below hclosed List.nodup_nil nofun hid (Nat.le_refl _)

section

variable {format : Format F} {ids ids' : List NodeId} {text text' : String}

private theorem textFrom_eq_readFrom (d : Document F) (levels : Nat) :
    d.textFrom levels = d.readFrom .plain levels := by
  induction levels with
  | zero => rfl
  | succ levels ih =>
    funext id
    rw [textFrom, readFrom, ih]
    rcases d.nodes[id]? with _ | _ | live <;> rfl

private theorem htmlFrom_eq_readFrom (d : Document F) (levels : Nat) :
    d.htmlFrom levels = d.readFrom .html levels := by
  induction levels with
  | zero => rfl
  | succ levels ih =>
    funext id
    rw [htmlFrom, readFrom, ih]
    rcases d.nodes[id]? with _ | _ | live
    · rfl
    · rfl
    · have henters : (Format.html : Format F).enters live = !Markup.isVoid live.tag := rfl
      have helement (inner : String) : Format.html.element live inner =
          if Markup.isVoid live.tag then live.openTag
          else live.openTag ++ inner ++ "</" ++ live.tag ++ ">" := rfl
      simp only [henters, helement]
      cases Markup.isVoid live.tag <;> rfl

theorem Reads.append (h : d.Reads format ids text) (h' : d.Reads format ids' text') :
    d.Reads format (ids ++ ids') (text ++ text') := by
  induction h with
  | nil => rwa [String.empty_append]
  | text hnode _ ih =>
    rw [String.append_assoc]
    exact .text hnode ih
  | passed hnode hpassed _ ih =>
    rw [String.append_assoc]
    exact .passed hnode hpassed ih
  | entered hnode hentered hinner _ _ ih =>
    rw [String.append_assoc]
    exact .entered hnode hentered hinner ih

private theorem reads_join {f : NodeId → String} (h : ∀ id ∈ ids, d.Reads format [id] (f id)) :
    d.Reads format ids (String.join (ids.map f)) := by
  induction ids with
  | nil => exact .nil
  | cons id rest ih =>
    obtain ⟨hid, hrest⟩ := List.forall_mem_cons.1 h
    rw [List.map_cons, String.join_cons]
    exact hid.append (ih hrest)

private theorem Within.reads {levels : Nat} (h : d.Within levels id) (format : Format F) :
    d.Reads format [id] (d.readFrom format levels id) := by
  induction h with
  | @intro levels id hid _ ih =>
    have hnode : d.nodes[id]? = some d.nodes[id] := Array.getElem?_eq_getElem hid
    rw [readFrom, hnode]
    cases hkind : d.nodes[id] with
    | text content =>
      rw [hkind] at hnode
      have hreads : d.Reads format [id] (format.text content ++ "") := .text hnode .nil
      rwa [String.append_empty] at hreads
    | element live =>
      rw [hkind] at hnode
      dsimp only
      cases hentered : format.enters live with
      | true =>
        have hinner : d.Reads format live.children _ :=
          reads_join fun child hchild => ih child (by simpa [Holds, children, element?, hnode])
        have hreads : d.Reads format [id] (_ ++ "") := .entered hnode hentered hinner .nil
        rwa [String.append_empty] at hreads
      | false =>
        have hreads : d.Reads format [id] (_ ++ "") := .passed hnode hentered .nil
        rwa [String.append_empty] at hreads

private theorem Reads.acc (h : d.Reads .plain ids text) :
    ∀ id ∈ ids, Acc (fun child parent => d.Holds parent child) id := by
  induction h with
  | nil => exact nofun
  | text hnode _ ih =>
    refine List.forall_mem_cons.2 ⟨.intro _ fun child hholds => ?_, ih⟩
    simp [Holds, children, element?, hnode] at hholds
  | passed _ hpassed => cases hpassed
  | entered hnode _ _ _ ihinner ih =>
    refine List.forall_mem_cons.2 ⟨.intro _ fun child hholds => ihinner child ?_, ih⟩
    simpa [Holds, children, element?, hnode] using hholds

private theorem not_below_of_acc (h : Acc (fun child parent => d.Holds parent child) id) :
    ¬d.Below id id := by
  intro hcycle
  have hacc := h.transGen
  clear h
  induction hacc with
  | intro id _ ih => exact ih id (Relation.transGen_swap.2 hcycle) hcycle

private theorem acyclic_iff_reads (hclosed : d.Closed) :
    d.Acyclic ↔ ∀ id < d.nodes.size, ∃ text, d.Reads .plain [id] text := by
  refine ⟨fun h id hid => ⟨_, (h.within hclosed hid).reads .plain⟩, fun h id hcycle => ?_⟩
  obtain ⟨child, hholds, -⟩ := Relation.TransGen.head'_iff.1 hcycle
  obtain ⟨text, htext⟩ := h id hholds.lt_size
  exact not_below_of_acc (htext.acc id List.mem_cons_self) hcycle

end

/-- The nodes of a document make no cycle at any time exactly if no node was appended to one of its
descendants. While they make none, and only then, the text of every node comes to an end, and so does
its markup; both are what is read with as many levels as there are nodes. -/
theorem acyclic_iff_no_append_closes {past : List (Document F × Option (NodeId × NodeId))}
    (h : History past d) :
    (((∀ e ∈ past, e.1.Acyclic) ∧ d.Acyclic) ↔
      ∀ e ∈ past, ∀ parent child, e.2 = some (parent, child) → ¬e.1.Closes parent child) ∧
    (d.Acyclic ↔ ∀ id < d.nodes.size, ∃ text, d.Reads .plain [id] text) ∧
    (d.Acyclic → ∀ id < d.nodes.size,
      d.Reads .plain [id] (d.textContent id) ∧ d.Reads .html [id] (d.outerHtml id)) := by
  refine ⟨h.acyclic_iff, acyclic_iff_reads h.closed, fun hacyclic id hid => ?_⟩
  have hwithin := hacyclic.within h.closed hid
  refine ⟨?_, ?_⟩
  · rw [textContent, textFrom_eq_readFrom]
    exact hwithin.reads .plain
  · rw [outerHtml, htmlFrom_eq_readFrom]
    exact hwithin.reads .html

def pair : Document String where
  nodes := #[.element { tag := "div" }, .element { tag := "p" }]

def nested : Document String := (appendChild 0 1 pair).value.2

def knotted : Document String := (appendChild 1 0 nested).value.2

private theorem history_nested : History
    [(pair, some (0, 1)), ({ nodes := #[.element { tag := "div" }] }, none), ({}, none)] nested := by
  have hdiv : History (F := String) [({}, none)] { nodes := #[.element { tag := "div" }] } :=
    .step .start (.detaches "div")
  have hpair : History [({ nodes := #[.element { tag := "div" }] }, none), ({}, none)] pair :=
    .step hdiv (.detaches "p")
  exact .step hpair (.appends (by decide) (by decide))

/-- A node appended to its child makes a cycle, and not all texts come to an end. -/
theorem acyclic_iff_no_append_closes_nested :
    nested.Acyclic ∧ nested.Reads .html [0] "<div><p></p></div>" ∧
      nested.Closes 1 0 ∧ ¬knotted.Acyclic ∧
      ¬∀ id < knotted.nodes.size, ∃ text, knotted.Reads .plain [id] text := by
  have hknotted : History _ knotted := history_nested.step (.appends (by decide) (by decide))
  obtain ⟨hopen, -, hreads⟩ := acyclic_iff_no_append_closes history_nested
  obtain ⟨hclosed, hends, -⟩ := acyclic_iff_no_append_closes hknotted
  have hchildless : pair.children 1 = [] := by decide
  have hapart : ¬pair.Closes 0 1 := by
    rintro ⟨-, hbelow⟩
    obtain ⟨child, hholds, -⟩ := Relation.TransGen.head'_iff.1 hbelow
    rw [Holds, hchildless] at hholds
    cases hholds
  have hnone : ∀ e ∈ [(pair, some (0, 1)), ({ nodes := #[.element { tag := "div" }] }, none),
      ({}, none)], ∀ parent child, e.2 = some (parent, child) → ¬e.1.Closes parent child := by
    simpa using hapart
  obtain ⟨hpast, hacyclic⟩ := hopen.2 hnone
  have hchild : 1 ∈ nested.children 0 := by decide
  have hcloses : nested.Closes 1 0 := ⟨by decide, .single hchild⟩
  have hcyclic (h : knotted.Acyclic) : False :=
    hclosed.1 ⟨List.forall_mem_cons.2 ⟨hacyclic, hpast⟩, h⟩ _ List.mem_cons_self 1 0 rfl hcloses
  refine ⟨hacyclic, ?_, hcloses, hcyclic, fun h => hcyclic (hends.2 h)⟩
  have hhtml : nested.outerHtml 0 = "<div><p></p></div>" := by decide +kernel
  rw [← hhtml]
  exact (hreads hacyclic 0 (by decide)).2

end Document

end TreeRender.Dom
