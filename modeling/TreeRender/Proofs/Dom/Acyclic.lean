import Mathlib.Logic.Relation
import TreeRender.Proofs.Dom.Fresh

/-!
# Cycles of live nodes

A live node may be appended to any other one, and only to itself this is refused. So an append makes
a cycle exactly if the node appended has the other one below it. Nothing else does: new nodes have no
children, and a render links new nodes to older ones among them, and then to its container. While
there is no cycle, the text and the markup of each node come to an end.
-/

namespace TreeRender.Dom.Document

variable {F σ : Type}

def Holds (d : Document F) (parent child : NodeId) : Prop := child ∈ d.children parent

def Below (d : Document F) (above id : NodeId) : Prop := Relation.TransGen d.Holds above id

def Acyclic (d : Document F) : Prop := ∀ id, ¬d.Below id id

def Closed (d : Document F) : Prop := ∀ parent child, d.Holds parent child → child < d.nodes.size

/-- Appending `child` to `parent` closes a cycle: `parent` can have children, and is a descendant of
`child`. -/
def Closes (d : Document F) (parent child : NodeId) : Prop :=
  (d.element? parent).isSome = true ∧ d.Below child parent

variable {d d₁ d' : Document F} {parent child : NodeId}

theorem Holds.lt_size (h : d.Holds parent child) : parent < d.nodes.size := by
  cases hnode : d.nodes[parent]? with
  | none =>
    have hnone : d.children parent = [] := by simp [children, element?, hnode]
    rw [Holds, hnone] at h
    cases h
  | some node => exact Document.lt_size hnode

theorem children_congr {id : NodeId} (h : d'.nodes[id]? = d.nodes[id]?) :
    d'.children id = d.children id := by
  simp only [children, element?, h]

theorem Below.mono {above id : NodeId} (h : d.Below above id)
    (hholds : ∀ parent child, d.Holds parent child → d'.Holds parent child) : d'.Below above id :=
  Relation.TransGen.mono hholds above id h

theorem Acyclic.mono (h : d.Acyclic)
    (hholds : ∀ parent child, d'.Holds parent child → d.Holds parent child) : d'.Acyclic :=
  fun id hcycle => h id (hcycle.mono hholds)

private theorem below_of_append (hholds : ∀ above id, d'.Holds above id →
      d.Holds above id ∨ above = parent ∧ id = child) {above id : NodeId} (h : d'.Below above id) :
    d.Below above id ∨
      Relation.ReflTransGen d.Holds above parent ∧ Relation.ReflTransGen d.Holds child id := by
  induction h with
  | single hstep =>
    obtain hold | ⟨rfl, rfl⟩ := hholds _ _ hstep
    · exact .inl (.single hold)
    · exact .inr ⟨.refl, .refl⟩
  | tail _ hstep ih =>
    obtain hold | ⟨rfl, rfl⟩ := hholds _ _ hstep
    · exact ih.imp (·.tail hold) fun h => ⟨h.1, h.2.tail hold⟩
    · exact .inr ⟨ih.elim (·.to_reflTransGen) (·.1), .refl⟩

private theorem holds_appendChild {above id : NodeId} :
    (appendChild parent child d).value.2.Holds above id ↔ d.Holds above id ∨
      (d.element? parent).isSome = true ∧ parent ≠ child ∧ above = parent ∧ id = child := by
  by_cases heq : parent = child
  · have hsame : (appendChild parent child d).value.2 = d := by
      unfold appendChild
      rw [if_pos heq]
      rfl
    rw [hsame]
    exact ⟨.inl, fun h => h.resolve_right fun hnew => hnew.2.1 heq⟩
  cases helement : d.element? parent with
  | none =>
    rw [value_appendChild_text helement heq]
    exact ⟨.inl, fun h => h.resolve_right fun hnew => nomatch hnew.1⟩
  | some live =>
    rw [value_appendChild helement heq]
    by_cases habove : above = parent
    · subst habove
      have hnew : (d.update above { live with children := live.children ++ [child] }).children above =
          d.children above ++ [child] := by
        simp only [children, element?_update helement, helement, Option.map_some, Option.getD_some]
      rw [Holds, Holds, hnew, List.mem_append, List.mem_singleton]
      exact or_congr_right ⟨fun h => ⟨rfl, heq, rfl, h⟩, fun h => h.2.2.2⟩
    · rw [Holds, children_congr (changesOnly_update d parent _ above habove)]
      exact ⟨.inl, fun h => h.resolve_right fun hnew => habove hnew.2.2.1⟩

private theorem acyclic_appendChild :
    (appendChild parent child d).value.2.Acyclic ↔ d.Acyclic ∧ ¬d.Closes parent child := by
  refine ⟨fun h => ⟨?_, ?_⟩, fun ⟨hacyclic, hopen⟩ id hcycle => ?_⟩
  · exact h.mono fun _ _ hholds => holds_appendChild.2 (.inl hholds)
  · rintro ⟨helement, hbelow⟩
    have hkept : (appendChild parent child d).value.2.Below child parent :=
      hbelow.mono fun _ _ hholds => holds_appendChild.2 (.inl hholds)
    by_cases heq : parent = child
    · subst heq
      exact h parent hkept
    · exact h child (hkept.tail (holds_appendChild.2 (.inr ⟨helement, heq, rfl, rfl⟩)))
  · by_cases hnew : (d.element? parent).isSome = true ∧ parent ≠ child
    · obtain hold | ⟨habove, hbelow⟩ := below_of_append (fun _ _ hholds =>
        (holds_appendChild.1 hholds).imp_right fun h => h.2.2) hcycle
      · exact hacyclic id hold
      · rcases Relation.reflTransGen_iff_eq_or_transGen.1 (hbelow.trans habove) with heq | hbelow
        · exact hnew.2 heq
        · exact hopen ⟨hnew.1, hbelow⟩
    · refine hacyclic id (hcycle.mono fun _ _ hholds => ?_)
      exact (holds_appendChild.1 hholds).resolve_right fun h => hnew ⟨h.1, h.2.1⟩

/-- A document grows by new nodes, the nodes `ids` among them. New nodes have only new children, which
are older than they are. -/
structure Stacks (d d' : Document F) (ids : List NodeId) : Prop where
  keeps : Keeps 0 d d'
  older : ∀ parent child, d.nodes.size ≤ parent → d'.Holds parent child →
    d.nodes.size ≤ child ∧ child < parent
  fresh : ∀ id ∈ ids, d.nodes.size ≤ id ∧ id < d'.nodes.size

namespace Stacks

variable {ids ids' : List NodeId}

theorem nil (d : Document F) : d.Stacks d [] :=
  ⟨.refl 0 d, fun _ _ hnew hholds => absurd hholds.lt_size (Nat.not_lt.2 hnew), nofun⟩

private theorem forget (h : d.Stacks d' ids) : d.Stacks d' [] := ⟨h.keeps, h.older, nofun⟩

theorem append (h : d.Stacks d₁ ids) (h' : d₁.Stacks d' ids') : d.Stacks d' (ids ++ ids') where
  keeps := h.keeps.trans h'.keeps
  older parent child hnew hholds := by
    by_cases hlt : parent < d₁.nodes.size
    · rw [Holds, h'.keeps.children_eq (Nat.zero_le _) hlt] at hholds
      exact h.older parent child hnew hholds
    · obtain ⟨hchild, holder⟩ := h'.older parent child (Nat.not_lt.1 hlt) hholds
      exact ⟨Nat.le_trans h.keeps.size_le hchild, holder⟩
  fresh id hid := by
    obtain hid | hid := List.mem_append.1 hid
    · exact ⟨(h.fresh id hid).1, Nat.lt_of_lt_of_le (h.fresh id hid).2 h'.keeps.size_le⟩
    · exact ⟨Nat.le_trans h.keeps.size_le (h'.fresh id hid).1, (h'.fresh id hid).2⟩

private theorem create (h : d.Stacks d₁ ids) {node : LiveNode F}
    (hchildren : (d₁.create node).children d₁.nodes.size = ids) :
    d.Stacks (d₁.create node) [d₁.nodes.size] where
  keeps := h.keeps.trans (d₁.keeps_create node)
  older parent child hnew hholds := by
    by_cases hlt : parent < d₁.nodes.size
    · rw [Holds, (d₁.keeps_create node).children_eq (Nat.zero_le _) hlt] at hholds
      exact h.older parent child hnew hholds
    · have hsize : (d₁.create node).nodes.size = d₁.nodes.size + 1 := Array.size_push _
      have hle : parent ≤ d₁.nodes.size :=
        Nat.lt_succ_iff.1 (Nat.lt_of_lt_of_eq hholds.lt_size hsize)
      obtain rfl : parent = d₁.nodes.size := Nat.le_antisymm hle (Nat.not_lt.1 hlt)
      rw [Holds, hchildren] at hholds
      exact h.fresh child hholds
  fresh id hid := by
    obtain rfl := List.mem_singleton.1 hid
    exact ⟨h.keeps.size_le, lt_size (d₁.getElem?_create node)⟩

private theorem holds_iff (h : d.Stacks d' ids) (hold : parent < d.nodes.size) :
    d'.Holds parent child ↔ d.Holds parent child := by
  rw [Holds, Holds, h.keeps.children_eq (Nat.zero_le _) hold]

end Stacks

private theorem Acyclic.stacked {first : NodeId} (h : d.Acyclic)
    (hold : ∀ parent child, parent < first → d'.Holds parent child →
      d.Holds parent child ∨ first ≤ child)
    (hnew : ∀ parent child, first ≤ parent → d'.Holds parent child → first ≤ child ∧ child < parent) :
    d'.Acyclic := by
  have below {above id : NodeId} (hbelow : d'.Below above id) :
      (first ≤ above → first ≤ id ∧ id < above) ∧
        (above < first → d.Below above id ∨ first ≤ id) := by
    induction hbelow with
    | single hstep =>
      exact ⟨fun habove => hnew _ _ habove hstep,
        fun habove => (hold _ _ habove hstep).imp_left .single⟩
    | @tail id child _ hstep ih =>
      refine ⟨fun habove => ?_, fun habove => ?_⟩
      · obtain ⟨hid, hlt⟩ := ih.1 habove
        obtain ⟨hchild, hlt'⟩ := hnew id child hid hstep
        exact ⟨hchild, Nat.lt_trans hlt' hlt⟩
      · obtain hbelow | hid := ih.2 habove
        · by_cases hid : id < first
          · exact (hold id child hid hstep).imp_left hbelow.tail
          · exact .inr (hnew id child (Nat.not_lt.1 hid) hstep).1
        · exact .inr (hnew id child hid hstep).1
  intro id hcycle
  obtain ⟨hnewer, holder⟩ := below hcycle
  by_cases hid : id < first
  · exact (holder hid).elim (h id) (Nat.not_le.2 hid)
  · exact Nat.lt_irrefl id (hnewer (Nat.not_lt.1 hid)).2

private theorem stacks_fallbackNodes (d : Document F) (fallback : String) :
    d.Stacks (fallbackNodes host fallback d).value.2 (fallbackNodes host fallback d).value.1 := by
  unfold fallbackNodes
  cases fallback.isEmpty with
  | true => exact .nil d
  | false => exact (Stacks.nil d).create (d.children_create_text fallback)

private theorem makes_stacks (default : Option String) (fallback : String) :
    (backend host default : Backend F (HostState (Document F)) (List NodeId)).Makes (σ := σ) fallback
      (fun s t => s.backend.host.Stacks t.backend.host [])
      fun s t us => s.backend.host.Stacks t.backend.host us.flatten where
  stop _ := .nil _
  error h h' := h.forget.append h'
  nil _ := .nil _
  append h h' := by
    rw [List.flatten_append]
    exact h.append h'
  calls _ _ := .nil _
  empty _ := .nil _
  text text s := (Stacks.nil s.backend.host).create (s.backend.host.children_create_text text)
  fallback s := by
    have hstacks := stacks_fallbackNodes s.backend.host fallback
    rw [← List.append_nil (fallbackNodes host fallback s.backend.host).value.1] at hstacks
    exact hstacks
  fragment {s t us} h := by
    rw [← List.append_nil us.flatten] at h
    exact h
  enter _ h := h
  element {s t us} e hvalid _ h := by
    have hstacks : s.backend.host.Stacks t.backend.host us.flatten := h
    change s.backend.host.Stacks (assemble host _ e us.flatten t.backend.host).value.2
      [(assemble host _ e us.flatten t.backend.host).value.1].flatten
    rw [value_assemble hvalid t.backend.host _ fun id hid => (hstacks.fresh id hid).2]
    exact hstacks.create (t.backend.host.children_create_element _)

private theorem stacks_walked (r : LiveRenderer (Document F)) (program : Program F σ)
    (node : Node F)
    (world : World σ) :
    let walked := r.walked host program node world
    r.host.Stacks walked.2.backend.host [] ∧
      ∀ roots, walked.1 = .ok roots → r.host.Stacks walked.2.backend.host roots := by
  intro walked
  have made : Walk.Ends _ _ walked := r.ends_walked (makes_stacks _ _) program node world
  generalize walked = p at made ⊢
  obtain ⟨_ | roots, t⟩ := p
  · exact ⟨made, nofun⟩
  · have hstacks : r.host.Stacks t.backend.host (roots ++ []) := made
    rw [List.append_nil] at hstacks
    refine ⟨hstacks.forget, ?_⟩
    rintro _ ⟨⟩
    exact hstacks

private theorem holds_mount (takeOver : Bool) {container : Option NodeId} {nodes : List NodeId}
    (hcontainer : ∀ id, container = some id → id < d.nodes.size)
    (hne : ∀ id, container = some id → ∀ n ∈ nodes, id ≠ n)
    (h : (mount host takeOver container nodes d).value.2.Holds parent child) :
    d.Holds parent child ∨ container = some parent ∧ child ∈ nodes := by
  obtain ⟨hsize, -, hnodes⟩ := mount_frames takeOver hcontainer hne
  have hlt : parent < d.nodes.size := Nat.lt_of_lt_of_eq h.lt_size hsize
  have hnode : d.nodes[parent]? = some d.nodes[parent] := Array.getElem?_eq_getElem hlt
  have hmounted := hnodes parent _ hnode
  by_cases hsame : container = some parent
  · rw [if_pos hsame] at hmounted
    cases hkind : d.nodes[parent] with
    | text content =>
      rw [hkind] at hmounted
      simp [Holds, children, element?, hmounted, LiveNode.holding] at h
    | element live =>
      rw [hkind] at hnode hmounted
      simp only [Holds, children, element?, hnode, hmounted, LiveNode.holding, Option.map_some,
        Option.getD_some, List.mem_append] at h ⊢
      obtain h | h := h
      · cases takeOver with
        | true => cases h
        | false => exact .inl h
      · exact .inr ⟨hsame, h⟩
  · rw [if_neg hsame] at hmounted
    rw [Holds, children_congr (hmounted.trans hnode.symm)] at h
    exact .inl h

private theorem holds_render (r : LiveRenderer (Document F)) (program : Program F σ) (node : Node F)
    {container : Option NodeId} (hcontainer : ∀ id, container = some id → id < r.host.nodes.size)
    (world : World σ) :
    let d' := (r.render host program node container world).value.renderer.host
    ∃ d₁, r.host.Stacks d₁ [] ∧ d'.nodes.size = d₁.nodes.size ∧ ∀ parent child,
      d'.Holds parent child → d₁.Holds parent child ∨
        parent < r.host.nodes.size ∧ r.host.nodes.size ≤ child ∧ child < d₁.nodes.size := by
  intro d'
  obtain ⟨hstacks, hroots⟩ := stacks_walked r program node world
  simp only [d', LiveRenderer.value_render]
  generalize r.walked host program node world = p at hstacks hroots ⊢
  obtain ⟨e | roots, t⟩ := p
  · exact ⟨_, hstacks, rfl, fun _ _ => .inl⟩
  · have hfresh := (hroots roots rfl).fresh
    have hkept (id : NodeId) (hid : container = some id) : id < t.backend.host.nodes.size :=
      Nat.lt_of_lt_of_le (hcontainer id hid) hstacks.keeps.size_le
    have hne (id : NodeId) (hid : container = some id) (n : NodeId) (hn : n ∈ roots) : id ≠ n :=
      Nat.ne_of_lt (Nat.lt_of_lt_of_le (hcontainer id hid) (hfresh n hn).1)
    refine ⟨t.backend.host, hstacks, (mount_frames _ hkept hne).1, fun parent child h => ?_⟩
    refine (holds_mount _ hkept hne h).imp_right fun ⟨hparent, hchild⟩ => ?_
    exact ⟨hcontainer parent hparent, hfresh child hchild⟩

/-- What can be done to the nodes of a document. It is noted what is appended to what. -/
inductive Step (d : Document F) : Option (NodeId × NodeId) → Document F → Prop
  | detaches (tag : String) : Step d none (d.detached tag).2
  | createsElement (tag : String) (ns : Option String) :
    Step d none (createElement tag ns d).value.2
  | createsText (content : String) : Step d none (createText content d).value.2
  | appends {above id : NodeId} : above < d.nodes.size → id < d.nodes.size →
    Step d (some (above, id)) (appendChild above id d).value.2
  | clears (id : NodeId) : Step d none (clearChildren id d).value.2
  | renders {σ : Type} {r : LiveRenderer (Document F)} (program : Program F σ) (node : Node F)
    (container : Option NodeId) (world : World σ) : r.host = d →
    (∀ id, container = some id → id < d.nodes.size) →
    Step d none (r.render host program node container world).value.renderer.host

/-- The documents that a document without nodes went through, each with what was noted when it was
left, the latest first. -/
inductive History : List (Document F × Option (NodeId × NodeId)) → Document F → Prop
  | start : History [] {}
  | step {past d note d'} : History past d → d.Step note d' → History ((d, note) :: past) d'

/-- Nodes are added, and all those that were there hold what they held, or less. -/
structure Loosens (d d' : Document F) : Prop where
  size_le : d.nodes.size ≤ d'.nodes.size
  holds : ∀ parent child, d'.Holds parent child → d.Holds parent child

theorem Loosens.refl (d : Document F) : d.Loosens d := ⟨Nat.le_refl _, fun _ _ => id⟩

private theorem loosens_push {node : LiveNode F} (hnodes : d'.nodes = d.nodes.push node)
    (hchildless : ∀ live, node = .element live → live.children = []) : d.Loosens d' where
  size_le := by
    rw [hnodes, Array.size_push]
    exact Nat.le_succ _
  holds parent child h := by
    by_cases hparent : parent = d.nodes.size
    · subst hparent
      simp only [Holds, children, element?, hnodes, Array.getElem?_push_size] at h
      cases node with
      | text content => cases h
      | element live =>
        rw [Option.map_some, Option.getD_some, hchildless live rfl] at h
        cases h
    · have hkept : d'.nodes[parent]? = d.nodes[parent]? := by
        rw [hnodes, Array.getElem?_push, if_neg hparent]
      rwa [Holds, children_congr hkept] at h

private theorem loosens_clearChildren (d : Document F) (id : NodeId) :
    d.Loosens (clearChildren id d).value.2 := by
  cases helement : d.element? id with
  | none =>
    have hcleared : (clearChildren id d).value = ((), d) :=
      value_change_none helement (fun e => { e with children := [] }) (pure ())
    rw [hcleared]
    exact .refl d
  | some live =>
    have hcleared : (clearChildren id d).value = ((), d.update id { live with children := [] }) :=
      value_change helement (fun e => { e with children := [] }) (pure ())
    rw [hcleared]
    refine ⟨Nat.le_of_eq Array.size_setIfInBounds.symm, fun parent child h => ?_⟩
    by_cases hparent : parent = id
    · subst hparent
      simp only [Holds, children, element?_update helement, Option.map_some, Option.getD_some] at h
      cases h
    · rwa [Holds, children_congr (changesOnly_update d id _ parent hparent)] at h

private theorem loosens_createElement (d : Document F) (tag : String) (ns : Option String) :
    d.Loosens (createElement tag ns d).value.2 := by
  rw [value_createElement]
  cases Markup.isValidName tag with
  | false => exact .refl d
  | true =>
    refine loosens_push rfl ?_
    rintro _ ⟨⟩
    rfl

private theorem size_appendChild (d : Document F) (parent child : NodeId) :
    (appendChild parent child d).value.2.nodes.size = d.nodes.size := by
  by_cases heq : parent = child
  · unfold appendChild
    rw [if_pos heq]
    rfl
  cases helement : d.element? parent with
  | none => rw [value_appendChild_text helement heq]
  | some live =>
    rw [value_appendChild helement heq]
    exact Array.size_setIfInBounds

private theorem Step.frames {note : Option (NodeId × NodeId)} (h : d.Step note d') :
    (∃ parent child, note = some (parent, child) ∧ child < d.nodes.size ∧
      d' = (appendChild parent child d).value.2) ∨
    note = none ∧ (d.Loosens d' ∨ ∃ d₁, d.Stacks d₁ [] ∧ d'.nodes.size = d₁.nodes.size ∧
      ∀ parent child, d'.Holds parent child → d₁.Holds parent child ∨
        parent < d.nodes.size ∧ d.nodes.size ≤ child ∧ child < d₁.nodes.size) := by
  cases h with
  | detaches tag =>
    refine .inr ⟨rfl, .inl (loosens_push rfl ?_)⟩
    rintro _ ⟨⟩
    rfl
  | createsElement tag ns => exact .inr ⟨rfl, .inl (loosens_createElement d tag ns)⟩
  | createsText content =>
    have hpushed : (createText content d).value.2.nodes = d.nodes.push (.text content) := rfl
    exact .inr ⟨rfl, .inl (loosens_push hpushed nofun)⟩
  | appends _ hchild => exact .inl ⟨_, _, rfl, hchild, rfl⟩
  | clears id => exact .inr ⟨rfl, .inl (loosens_clearChildren d id)⟩
  | @renders _ r program node container world hhost hcontainer =>
    subst hhost
    exact .inr ⟨rfl, .inr (holds_render r program node hcontainer world)⟩

private theorem Step.closed {note : Option (NodeId × NodeId)} (h : d.Step note d')
    (hclosed : d.Closed) :
    d'.Closed := by
  intro parent child hholds
  obtain ⟨above, id, -, hid, rfl⟩ | ⟨-, hloosens | ⟨d₁, hstacks, hsize, hlater⟩⟩ := h.frames
  · rw [size_appendChild]
    obtain hold | ⟨-, -, -, rfl⟩ := holds_appendChild.1 hholds
    · exact hclosed parent child hold
    · exact hid
  · exact Nat.lt_of_lt_of_le (hclosed parent child (hloosens.holds _ _ hholds)) hloosens.size_le
  · rw [hsize]
    obtain hholds | ⟨-, -, hchild⟩ := hlater parent child hholds
    · by_cases hold : parent < d.nodes.size
      · exact Nat.lt_of_lt_of_le (hclosed parent child ((hstacks.holds_iff hold).1 hholds))
          hstacks.keeps.size_le
      · exact Nat.lt_trans (hstacks.older parent child (Nat.not_lt.1 hold) hholds).2 hholds.lt_size
    · exact hchild

private theorem Step.acyclic_iff {note : Option (NodeId × NodeId)} (h : d.Step note d')
    (hacyclic : d.Acyclic) :
    d'.Acyclic ↔ ∀ parent child, note = some (parent, child) → ¬d.Closes parent child := by
  obtain ⟨above, id, rfl, -, rfl⟩ | ⟨rfl, hloosens | ⟨d₁, hstacks, -, hlater⟩⟩ := h.frames
  · rw [acyclic_appendChild, and_iff_right hacyclic]
    refine ⟨?_, fun h => h above id rfl⟩
    rintro hopen _ _ ⟨⟩
    exact hopen
  · exact iff_of_true (hacyclic.mono hloosens.holds) nofun
  · have older (parent child : NodeId) (hold : parent < d.nodes.size)
        (hholds : d'.Holds parent child) : d.Holds parent child ∨ d.nodes.size ≤ child := by
      obtain hholds | ⟨-, hchild, -⟩ := hlater parent child hholds
      · exact .inl ((hstacks.holds_iff hold).1 hholds)
      · exact .inr hchild
    refine iff_of_true (hacyclic.stacked older fun parent child hnew hholds => ?_) nofun
    obtain hholds | ⟨hold, -⟩ := hlater parent child hholds
    · exact hstacks.older parent child hnew hholds
    · exact absurd hold (Nat.not_lt.2 hnew)

theorem History.closed {past : List (Document F × Option (NodeId × NodeId))} (h : History past d) :
    d.Closed := by
  induction h with
  | start => exact fun _ _ hholds => nomatch hholds.lt_size
  | step _ hstep ih => exact hstep.closed ih

/-- In a history there is no cycle at any time exactly if no append closes one. -/
theorem History.acyclic_iff {past : List (Document F × Option (NodeId × NodeId))}
    (h : History past d) :
    ((∀ e ∈ past, e.1.Acyclic) ∧ d.Acyclic) ↔
      ∀ e ∈ past, ∀ parent child, e.2 = some (parent, child) → ¬e.1.Closes parent child := by
  induction h with
  | start =>
    refine iff_of_true ⟨nofun, fun id hcycle => ?_⟩ nofun
    obtain ⟨_, hholds, -⟩ := Relation.TransGen.head'_iff.1 hcycle
    exact nomatch hholds.lt_size
  | step _ hstep ih =>
    rw [List.forall_mem_cons, List.forall_mem_cons, ← ih, and_assoc]
    constructor
    · rintro ⟨hd, hpast', hd'⟩
      exact ⟨(hstep.acyclic_iff hd).1 hd', hpast', hd⟩
    · rintro ⟨hopen, hpast', hd⟩
      exact ⟨hd, hpast', (hstep.acyclic_iff hd).2 hopen⟩

end TreeRender.Dom.Document
