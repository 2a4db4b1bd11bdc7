import TreeRender.Decimal.Notation

/-!
# Node trees

The trees that every renderer accepts. A tree may hold functions: components, computed texts and
event handlers. It holds them by name, from a type `F` of names, and a `Program` says what the names
mean; so a tree is plain data, and a function may well return a tree that names the same function.
-/

namespace TreeRender

inductive Scalar where
  | str (text : String)
  | number (x : Float)
  | bool (b : Bool)

def boolText (b : Bool) : String := if b then "true" else "false"

def Scalar.text : Scalar → String
  | .str s => s
  | .number x => Decimal.text x
  | .bool b => boolText b

/-- A function in node position: a producer gets nothing, a provider gets a scope to resolve
nested content with. -/
inductive Component (F : Type) where
  | producer (name : F)
  | provider (name : F)

inductive Directive (F : Type) where
  | literal (text : String)
  | computed (name : F)

inductive AttrValue (F : Type) where
  | null
  | str (text : String)
  | number (x : Float)
  | bool (b : Bool)
  | style (declarations : List (String × String))
  | handler (name : F)

/-- An element over children of type `N`: attributes in the order of their first appearance, then
the text directive and the children. -/
structure Element (F N : Type) where
  tag : String
  attributes : List (String × AttrValue F) := []
  text : Option (Directive F) := none
  children : Option N := none
  /-- No key stands twice. -/
  nodup_keys : (attributes.map Prod.fst).Nodup

inductive Node (F : Type) where
  | empty
  | text (value : Scalar)
  | component (component : Component F)
  | collection (nodes : List (Node F))
  | element (element : Element F (Node F))

variable {F : Type}

instance : Inhabited (Node F) := ⟨.empty⟩

/-- Induction on a node, with the members of a collection and the children of an element at hand. -/
theorem Node.inductOn {P : Node F → Prop} (node : Node F) (empty : P .empty)
    (text : ∀ value, P (.text value)) (component : ∀ c, P (.component c))
    (collection : ∀ nodes, (∀ n ∈ nodes, P n) → P (.collection nodes))
    (element : ∀ e : Element F (Node F), (∀ n, e.children = some n → P n) → P (.element e)) :
    P node :=
  @Node.rec F P (fun nodes => ∀ n ∈ nodes, P n) (fun e => ∀ n, e.children = some n → P n)
    (fun child => ∀ n, child = some n → P n) empty text component collection element (by simp)
    (by simp_all) (by simp) (by simp_all) (by simp) node

/-- A handler gets the kind of the event that fired. -/
structure Event where
  kind : String

end TreeRender
