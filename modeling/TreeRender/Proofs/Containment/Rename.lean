import TreeRender.Attribute
import TreeRender.Node.Basic

/-!
# Functions under other names

Trees hold functions by name, so the functions of a tree can be given other names. This changes
nothing else about the tree, and is undone by giving the old names back.
-/

namespace TreeRender

variable {F G N M : Type}

def Component.rename (f : F → G) : Component F → Component G
  | .producer name => .producer (f name)
  | .provider name => .provider (f name)

def Directive.rename (f : F → G) : Directive F → Directive G
  | .literal text => .literal text
  | .computed name => .computed (f name)

def AttrValue.rename (f : F → G) : AttrValue F → AttrValue G
  | .null => .null
  | .str text => .str text
  | .number x => .number x
  | .bool b => .bool b
  | .style declarations => .style declarations
  | .handler name => .handler (f name)

def Attribute.rename (f : F → G) : Attribute F → Attribute G
  | .value name text => .value name text
  | .present name => .present name
  | .listener event handler => .listener event (f handler)

/-- The element with its own functions renamed, around other children. -/
def Element.rename (f : F → G) (e : Element F N) (children : Option M) : Element G M where
  tag := e.tag
  attributes := e.attributes.map fun (key, value) => (key, value.rename f)
  text := e.text.map (Directive.rename f)
  children
  nodup_keys := by
    rw [List.map_map]
    exact e.nodup_keys

mutual

def Node.rename (f : F → G) : Node F → Node G
  | .empty => .empty
  | .text value => .text value
  | .component c => .component (c.rename f)
  | .collection nodes => .collection (Node.renameAll f nodes)
  | .element ⟨tag, attributes, directive, none, h⟩ =>
    .element (Element.rename f (⟨tag, attributes, directive, none, h⟩ : Element F (Node F)) none)
  | .element ⟨tag, attributes, directive, some child, h⟩ =>
    .element (Element.rename f (⟨tag, attributes, directive, none, h⟩ : Element F (Node F))
      (some (child.rename f)))

def Node.renameAll (f : F → G) : List (Node F) → List (Node G)
  | [] => []
  | n :: rest => n.rename f :: Node.renameAll f rest

end

private theorem Node.renameAll_eq (f : F → G) (nodes : List (Node F)) :
    Node.renameAll f nodes = nodes.map (Node.rename f) := by
  induction nodes with
  | nil => rfl
  | cons n rest ih => rw [Node.renameAll, List.map_cons, ih]

theorem Node.rename_collection (f : F → G) (nodes : List (Node F)) :
    (Node.collection nodes).rename f = .collection (nodes.map (Node.rename f)) := by
  rw [Node.rename, Node.renameAll_eq]

theorem Node.rename_element (f : F → G) (e : Element F (Node F)) :
    (Node.element e).rename f = .element (e.rename f (e.children.map (Node.rename f))) := by
  obtain ⟨tag, attributes, text, _ | child, h⟩ := e <;> rfl

theorem Node.rename_withChild (f : F → G) (e : Element F (Node F)) (child : Node F)
    (children : Option (Node G)) : (Node.element (e.withChild child)).rename f =
      .element ((e.rename f children).withChild (child.rename f)) := by
  rw [rename_element]
  rfl

private theorem Attribute.ofValue?_rename (f : F → G) (key : String) (value : AttrValue F) :
    ofValue? key (value.rename f) = (ofValue? key value).map (Attribute.rename f) := by
  cases value with
  | bool b => cases b <;> rfl
  | handler name => cases h : eventType? key <;> simp [AttrValue.rename, ofValue?, h, rename]
  | _ => rfl

theorem Element.mapped_rename (f : F → G) (e : Element F N) (children : Option M) :
    (e.rename f children).mapped = e.mapped.map (Attribute.rename f) := by
  unfold mapped rename
  rw [List.filterMap_map, List.map_filterMap]
  congr 1
  funext entry
  exact Attribute.ofValue?_rename f entry.1 entry.2

section

variable {f : F → G} {back : G → F} (h : ∀ name, back (f name) = name)

include h

private theorem Component.rename_back (c : Component F) : (c.rename f).rename back = c := by
  cases c <;> simp only [rename, h]

private theorem Directive.rename_back (directive : Directive F) :
    (directive.rename f).rename back = directive := by
  cases directive <;> simp only [rename, h]

private theorem AttrValue.rename_back (value : AttrValue F) : (value.rename f).rename back = value
    := by
  cases value <;> simp only [rename, h]

private theorem Element.rename_back (e : Element F N) (children : Option M) :
    (e.rename f children).rename back e.children = e := by
  have attributes : (e.attributes.map fun (key, value) =>
      (key, (AttrValue.rename f value).rename back)) = e.attributes := by
    simp only [AttrValue.rename_back h, List.map_id']
  have text : (e.text.map (Directive.rename f)).map (Directive.rename back) = e.text := by
    rw [Option.map_map]
    exact (congrArg (Option.map · e.text) (funext (Directive.rename_back h))).trans Option.map_id'
  obtain ⟨tag, attrs, directive, child, hkeys⟩ := e
  simp only [rename, List.map_map, Element.mk.injEq, and_true, true_and]
  exact ⟨attributes, text⟩

theorem Node.rename_back (node : Node F) : (node.rename f).rename back = node := by
  induction node using Node.inductOn with
  | empty => rfl
  | text value => rfl
  | component c => rw [Node.rename, Node.rename, c.rename_back h]
  | collection nodes ih =>
    rw [rename_collection, rename_collection, List.map_map]
    exact congrArg Node.collection ((List.map_congr_left ih).trans (List.map_id _))
  | element e ih =>
    have children : (e.children.map (Node.rename f)).map (Node.rename back) = e.children := by
      cases hchildren : e.children with
      | none => rfl
      | some child => exact congrArg some (ih child hchildren)
    rw [rename_element, rename_element]
    change Node.element ((e.rename f _).rename back ((e.children.map _).map _)) = _
    rw [children, e.rename_back h]

end

end TreeRender
