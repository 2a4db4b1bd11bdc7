import TreeRender.Dom.Document
import TreeRender.Dom.Renderer

/-!
# Assembling elements in a document

What a document comes to once an element is assembled in it. Nodes that were there before stay as
they are, and children are older than the element that they are appended to.
-/

namespace TreeRender

variable {F N : Type}

/-- What an attribute leaves on a live element, if its name can be written. -/
def Attribute.stored? : Attribute F → Option (String × Option String)
  | .value name text => if Markup.isValidName name then some (name, some text) else none
  | .present name => if Markup.isValidName name then some (name, none) else none
  | .listener .. => none

def Attribute.bound? : Attribute F → Option (Dom.Listener F)
  | .listener event handler => some ⟨event, handler⟩
  | _ => none

namespace Dom

def setAll (entries attributes : List (String × Option String)) : List (String × Option String) :=
  entries.foldl (fun attributes entry => setKey entry.1 entry.2 attributes) attributes

namespace LiveElement

variable (live : LiveElement F)

def put : Attribute F → LiveElement F
  | .value name text =>
    if Markup.isValidName name then
      { live with attributes := setKey name (some text) live.attributes } else live
  | .present name =>
    if Markup.isValidName name then
      { live with attributes := setKey name none live.attributes } else live
  | .listener event handler => { live with listeners := live.listeners ++ [⟨event, handler⟩] }

private theorem put_attributes (a : Attribute F) :
    (live.put a).attributes = setAll a.stored?.toList live.attributes := by
  cases a with
  | listener event handler => rfl
  | _ => simp only [put, Attribute.stored?]; split <;> rfl

private theorem put_rest (a : Attribute F) : (live.put a).tag = live.tag ∧
    (live.put a).listeners = live.listeners ++ a.bound?.toList ∧
    (live.put a).children = live.children := by
  cases a with
  | listener event handler => exact ⟨rfl, rfl, rfl⟩
  | _ => simp only [put, Attribute.bound?]; split <;> simp

theorem foldl_put (attributes : List (Attribute F)) :
    (attributes.foldl put live).tag = live.tag ∧
    (attributes.foldl put live).attributes =
      setAll (attributes.filterMap Attribute.stored?) live.attributes ∧
    (attributes.foldl put live).listeners =
      live.listeners ++ attributes.filterMap Attribute.bound? ∧
    (attributes.foldl put live).children = live.children := by
  induction attributes generalizing live with
  | nil => exact ⟨rfl, rfl, (List.append_nil _).symm, rfl⟩
  | cons a rest ih =>
    obtain ⟨htag, hattributes, hlisteners, hchildren⟩ := ih (live.put a)
    obtain ⟨htag', hlisteners', hchildren'⟩ := live.put_rest a
    rw [List.foldl_cons, htag, hattributes, hlisteners, hchildren, htag', hlisteners', hchildren',
      put_attributes]
    refine ⟨rfl, ?_, ?_, rfl⟩
    · cases hstored : a.stored? with
      | none => rw [List.filterMap_cons_none hstored]; rfl
      | some entry => rw [List.filterMap_cons_some hstored]; rfl
    · cases hbound : a.bound? with
      | none => rw [List.filterMap_cons_none hbound]; simp
      | some listener => rw [List.filterMap_cons_some hbound]; simp

end LiveElement

section

variable {H M : Type} {host : Host F H M} {e : Element F (Node F)} {ns : Option String} {h h' : H}

theorem value_stateT_bind {α γ : Type} (x : StateT H Logged α) (f : α → StateT H Logged γ) (h : H) :
    ((x >>= f) h).value = (f (x h).value.1 (x h).value.2).value := rfl

theorem value_assemble_none (hcreated : (host.createElement e.tag ns h).value = (none, h'))
    (children : List M) : (assemble host ns e children h).value = ([], h') := by
  unfold assemble
  rw [value_stateT_bind, hcreated]
  rfl

theorem value_assemble_some {node : M}
    (hcreated : (host.createElement e.tag ns h).value = (some node, h')) (children : List M) :
    (assemble host ns e children h).value = ([node],
      (appendAll host node children (applyAttributes host node e.mapped h').value.2).value.2) := by
  unfold assemble
  rw [value_stateT_bind, hcreated]
  rfl

end

namespace Document

/-- The nodes of a document from `first` on are in another one as they are. -/
def Keeps (first : NodeId) (d d' : Document F) : Prop :=
  ∀ id node, first ≤ id → d.nodes[id]? = some node → d'.nodes[id]? = some node

theorem Keeps.refl (first : NodeId) (d : Document F) : Keeps first d d := fun _ _ _ h => h

theorem Keeps.trans {first : NodeId} {d₁ d₂ d₃ : Document F} (h : Keeps first d₁ d₂)
    (h' : Keeps first d₂ d₃) : Keeps first d₁ d₃ :=
  fun id node hid hnode => h' id node hid (h id node hid hnode)

theorem Keeps.mono {first later : NodeId} {d d' : Document F} (h : Keeps first d d')
    (hle : first ≤ later) : Keeps later d d' :=
  fun id node hid => h id node (Nat.le_trans hle hid)

theorem lt_size {d : Document F} {id : NodeId} {node : LiveNode F}
    (h : d.nodes[id]? = some node) : id < d.nodes.size :=
  (Array.getElem?_eq_some_iff.1 h).1

theorem Keeps.size_le {d d' : Document F} (h : Keeps 0 d d') : d.nodes.size ≤ d'.nodes.size := by
  cases hsize : d.nodes.size with
  | zero => exact Nat.zero_le _
  | succ n =>
    have hlast : n < d.nodes.size := hsize ▸ Nat.lt_succ_self n
    exact lt_size (h n _ (Nat.zero_le n) (Array.getElem?_eq_getElem hlast))

/-- A document with one node more, created by rendering. -/
def create (d : Document F) (node : LiveNode F) : Document F :=
  { nodes := d.nodes.push node, created := d.created + 1 }

theorem keeps_create (d : Document F) (node : LiveNode F) : Keeps 0 d (d.create node) := by
  intro id old _ hold
  rw [create, Array.getElem?_push_lt (lt_size hold), ← Array.getElem?_eq_getElem (lt_size hold)]
  exact hold

theorem getElem?_create (d : Document F) (node : LiveNode F) :
    (d.create node).nodes[d.nodes.size]? = some node :=
  Array.getElem?_push_size

private theorem update_create (d : Document F) (e e' : LiveElement F) :
    (d.create (.element e)).update d.nodes.size e' = d.create (.element e') := by
  have hnodes : (d.nodes.push (.element e)).setIfInBounds d.nodes.size (.element e') =
      d.nodes.push (.element e') := by
    apply Array.ext
    · simp only [Array.size_setIfInBounds, Array.size_push]
    · intro i hi hi'
      have hold : i < (d.nodes.push (LiveNode.element e)).size := by
        simpa only [Array.size_setIfInBounds] using hi
      rw [Array.getElem_setIfInBounds hold]
      by_cases heq : d.nodes.size = i
      · subst heq
        rw [if_pos rfl, Array.getElem_push_eq]
      · rw [if_neg heq]
        simp only [Array.getElem_push]
        split
        · rfl
        · rw [Array.size_push] at hold
          omega
  simp only [create, update, hnodes]

section

variable {d : Document F} {id : NodeId} {live : LiveElement F}

private theorem element?_eq (h : d.element? id = some live) : d.nodes[id]? = some (.element live)
    := by
  unfold element? at h
  split at h
  · rename_i hnode
    cases h
    exact hnode
  · cases h

theorem element?_update (h : d.element? id = some live) (e : LiveElement F) :
    (d.update id e).element? id = some e := by
  have hlt := lt_size (element?_eq h)
  simp only [element?, update, Array.getElem?_setIfInBounds_self_of_lt hlt]

theorem update_update (d : Document F) (id : NodeId) (e e' : LiveElement F) :
    (d.update id e).update id e' = d.update id e' := by
  simp only [update, Array.setIfInBounds_setIfInBounds]

theorem update_self (h : d.element? id = some live) : d.update id live = d := by
  have hnode := element?_eq h
  obtain ⟨hlt, hget⟩ := Array.getElem?_eq_some_iff.1 hnode
  have hnodes : d.nodes.setIfInBounds id (.element live) = d.nodes := by
    apply Array.ext
    · exact Array.size_setIfInBounds
    · intro i hi hi'
      by_cases heq : id = i
      · subst heq
        rw [Array.getElem_setIfInBounds_self]
        exact hget.symm
      · exact Array.getElem_setIfInBounds_ne hi' heq
  rw [update, hnodes]

end

section

variable {d : Document F} {id : NodeId} {live : LiveElement F}

theorem value_change (h : d.element? id = some live) (f : LiveElement F → LiveElement F)
    (otherwise : Logged Unit) :
    ((do
      match (← get).element? id with
      | some e => modify (·.update id (f e))
      | none => otherwise : StateT (Document F) Logged Unit) d).value =
      ((), d.update id (f live)) := by
  change ((match d.element? id with
    | some e => modify fun d => d.update id (f e)
    | none => liftM otherwise : StateT (Document F) Logged Unit) d).value = _
  rw [h]
  rfl

theorem value_change_none (h : d.element? id = none) (f : LiveElement F → LiveElement F)
    (otherwise : Logged Unit) :
    ((do
      match (← get).element? id with
      | some e => modify (·.update id (f e))
      | none => otherwise : StateT (Document F) Logged Unit) d).value = ((), d) := by
  change ((match d.element? id with
    | some e => modify fun d => d.update id (f e)
    | none => liftM otherwise : StateT (Document F) Logged Unit) d).value = _
  rw [h]
  rfl

private theorem value_storeAttribute (h : d.element? id = some live) (name : String)
    (value : Option String) : (storeAttribute id name value d).value =
      ((), if Markup.isValidName name then
        d.update id { live with attributes := setKey name value live.attributes } else d) := by
  unfold storeAttribute
  cases Markup.isValidName name with
  | false => rfl
  | true => exact value_change h (fun e => { e with attributes := setKey name value e.attributes }) _

private theorem value_addListener (h : d.element? id = some live) (event : String) (handler : F) :
    (addListener id event handler d).value =
      ((), d.update id { live with listeners := live.listeners ++ [⟨event, handler⟩] }) :=
  value_change h (fun e => { e with listeners := e.listeners ++ [⟨event, handler⟩] }) _

theorem value_appendChild {child : NodeId} (h : d.element? id = some live) (hne : id ≠ child) :
    (appendChild id child d).value =
      ((), d.update id { live with children := live.children ++ [child] }) := by
  unfold appendChild
  rw [if_neg hne]
  exact value_change h (fun e => { e with children := e.children ++ [child] }) _

theorem value_appendChild_text {child : NodeId} (h : d.element? id = none) (hne : id ≠ child) :
    (appendChild id child d).value = ((), d) := by
  unfold appendChild
  rw [if_neg hne]
  exact value_change_none h (fun e => { e with children := e.children ++ [child] }) _

private theorem value_applyAttribute (h : d.element? id = some live) (a : Attribute F) :
    (applyAttribute host id a d).value = ((), d.update id (live.put a)) := by
  cases a with
  | value name text =>
    apply (value_storeAttribute h name (some text)).trans
    simp only [LiveElement.put]
    split
    · rfl
    · rw [update_self h]
  | present name =>
    apply (value_storeAttribute h name none).trans
    simp only [LiveElement.put]
    split
    · rfl
    · rw [update_self h]
  | listener event handler => exact value_addListener h event handler

private theorem value_applyAttributes (h : d.element? id = some live)
    (attributes : List (Attribute F)) :
    (applyAttributes host id attributes d).value =
      ((), d.update id (attributes.foldl LiveElement.put live)) := by
  induction attributes generalizing d live with
  | nil =>
    rw [List.foldl_nil, update_self h]
    rfl
  | cons a rest ih =>
    rw [applyAttributes, value_stateT_bind, value_applyAttribute h, ih (element?_update h _),
      update_update]
    rfl

theorem value_appendAll {children : List NodeId} (h : d.element? id = some live)
    (hne : ∀ child ∈ children, id ≠ child) : (appendAll host id children d).value =
      ((), d.update id { live with children := live.children ++ children }) := by
  induction children generalizing d live with
  | nil =>
    rw [List.append_nil, update_self h]
    rfl
  | cons child rest ih =>
    have hstep : (appendAll host id (child :: rest) d).value = (appendAll host id rest
        (d.update id { live with children := live.children ++ [child] })).value := by
      change (appendAll host id rest (appendChild id child d).value.2).value = _
      rw [value_appendChild h (hne child (by simp))]
    rw [hstep, ih (element?_update h _) fun c hc => hne c (by simp [hc]), update_update]
    simp only [List.append_assoc, List.singleton_append]

end

theorem value_createElement (d : Document F) (tag : String) (ns : Option String) :
    (createElement tag ns d).value =
      if Markup.isValidName tag then (some d.nodes.size, d.create (.element { tag, ns }))
      else (none, d) := by
  unfold createElement
  cases Markup.isValidName tag <;> rfl

theorem value_assemble {e : Element F (Node F)} (hvalid : Markup.isValidName e.tag = true)
    (d : Document F) (ns : Option String) {children : List NodeId}
    (hchildren : ∀ child ∈ children, child < d.nodes.size) :
    (assemble host ns e children d).value = ([d.nodes.size],
      d.create (.element { e.mapped.foldl LiveElement.put { tag := e.tag, ns } with children })) := by
  have hbare : (d.create (.element { tag := e.tag, ns })).element? d.nodes.size =
      some ({ tag := e.tag, ns } : LiveElement F) := by
    simp only [element?, getElem?_create]
  have hcreated : (host.createElement e.tag ns d).value =
      (some d.nodes.size, d.create (.element { tag := e.tag, ns })) :=
    (value_createElement d e.tag ns).trans (if_pos hvalid)
  have hne (child : NodeId) (hchild : child ∈ children) : d.nodes.size ≠ child :=
    Nat.ne_of_gt (hchildren child hchild)
  rw [value_assemble_some hcreated, value_applyAttributes hbare,
    value_appendAll (element?_update hbare _) hne, update_update, update_create,
    (LiveElement.foldl_put _ _).2.2.2, List.nil_append]

def ChangesOnly (id : NodeId) (d d' : Document F) : Prop :=
  ∀ other, other ≠ id → d'.nodes[other]? = d.nodes[other]?

theorem ChangesOnly.refl (id : NodeId) (d : Document F) : ChangesOnly id d d := fun _ _ => rfl

theorem ChangesOnly.trans {id : NodeId} {d₁ d₂ d₃ : Document F} (h : ChangesOnly id d₁ d₂)
    (h' : ChangesOnly id d₂ d₃) : ChangesOnly id d₁ d₃ :=
  fun other hother => (h' other hother).trans (h other hother)

private theorem ChangesOnly.keeps {id first : NodeId} {d d' : Document F} (h : ChangesOnly id d d')
    (hid : id < first) : Keeps first d d' := by
  intro other node hother hnode
  rw [h other (Nat.ne_of_gt (Nat.lt_of_lt_of_le hid hother))]
  exact hnode

theorem changesOnly_update (d : Document F) (id : NodeId) (e : LiveElement F) :
    ChangesOnly id d (d.update id e) :=
  fun _ hother => Array.getElem?_setIfInBounds_ne hother.symm

section

variable (id : NodeId) (d : Document F)

theorem changesOnly_change (f : LiveElement F → LiveElement F) (otherwise : Logged Unit) :
    ChangesOnly id d ((do
      match (← get).element? id with
      | some e => modify (·.update id (f e))
      | none => otherwise : StateT (Document F) Logged Unit) d).value.2 := by
  cases helement : d.element? id with
  | none =>
    rw [value_change_none helement]
    exact .refl id d
  | some live =>
    rw [value_change helement]
    exact changesOnly_update d id (f live)

private theorem changesOnly_storeAttribute (name : String) (value : Option String) :
    ChangesOnly id d (storeAttribute id name value d).value.2 := by
  unfold storeAttribute
  cases Markup.isValidName name with
  | false => exact .refl id d
  | true =>
    exact changesOnly_change id d
      (fun e => { e with attributes := setKey name value e.attributes }) _

private theorem changesOnly_applyAttribute (a : Attribute F) :
    ChangesOnly id d (applyAttribute host id a d).value.2 := by
  cases a with
  | value name text => exact changesOnly_storeAttribute id d name (some text)
  | present name => exact changesOnly_storeAttribute id d name none
  | listener event handler =>
    exact changesOnly_change id d
      (fun e => { e with listeners := e.listeners ++ [⟨event, handler⟩] }) _

private theorem changesOnly_applyAttributes (attributes : List (Attribute F)) :
    ChangesOnly id d (applyAttributes host id attributes d).value.2 := by
  induction attributes generalizing d with
  | nil => exact .refl id d
  | cons a rest ih => exact (changesOnly_applyAttribute id d a).trans (ih _)

private theorem changesOnly_appendChild (child : NodeId) :
    ChangesOnly id d (appendChild id child d).value.2 := by
  unfold appendChild
  by_cases heq : id = child
  · rw [if_pos heq]
    exact .refl id d
  · rw [if_neg heq]
    exact changesOnly_change id d (fun e => { e with children := e.children ++ [child] }) _

private theorem changesOnly_appendAll (children : List NodeId) :
    ChangesOnly id d (appendAll host id children d).value.2 := by
  induction children generalizing d with
  | nil => exact .refl id d
  | cons child rest ih => exact (changesOnly_appendChild id d child).trans (ih _)

theorem changesOnly_mount (takeOver : Bool) (nodes : List NodeId) :
    ChangesOnly id d (mount host takeOver (some id) nodes d).value.2 := by
  cases takeOver with
  | false => exact changesOnly_appendAll id d nodes
  | true =>
    have hcleared : ChangesOnly id d (clearChildren id d).value.2 :=
      changesOnly_change id d (fun e => { e with children := [] }) (pure ())
    exact hcleared.trans (changesOnly_appendAll id _ nodes)

end

theorem keeps_mount {first : NodeId} {container : Option NodeId}
    (h : ∀ id, container = some id → id < first) (takeOver : Bool) (nodes : List NodeId)
    (d : Document F) : Keeps first d (mount host takeOver container nodes d).value.2 := by
  cases container with
  | none => exact .refl first d
  | some id => exact (changesOnly_mount id d takeOver nodes).keeps (h id rfl)

theorem keeps_assemble (d : Document F) (ns : Option String) (e : Element F (Node F))
    (children : List NodeId) : Keeps 0 d (assemble host ns e children d).value.2 := by
  cases hvalid : Markup.isValidName e.tag with
  | false =>
    have hrefused : (host.createElement e.tag ns d).value = (none, d) :=
      (value_createElement d e.tag ns).trans (if_neg (Bool.eq_false_iff.1 hvalid))
    rw [value_assemble_none hrefused]
    exact .refl 0 d
  | true =>
    have hmade : (host.createElement e.tag ns d).value =
        (some d.nodes.size, d.create (.element { tag := e.tag, ns })) :=
      (value_createElement d e.tag ns).trans (if_pos hvalid)
    rw [value_assemble_some hmade]
    intro id node hid hnode
    have hcreated := d.keeps_create (.element { tag := e.tag, ns }) id node hid hnode
    have hput := (changesOnly_applyAttributes d.nodes.size
      (d.create (.element { tag := e.tag, ns })) e.mapped).trans
      (changesOnly_appendAll d.nodes.size _ children)
    exact (hput id (Nat.ne_of_lt (lt_size hnode))).trans hcreated

end Document

end Dom

end TreeRender
