import TreeRender.Proofs.Shape.Complexity
import TreeRender.Proofs.Signature.Injective

/-!
# Complexity and nesting

Every element and every collection that holds something adds to the complexity, so a tree is nested
no deeper than its complexity allows. An element that may be cached is therefore nested no deeper
than one level past the limit, and whatever descends through it, as its signature does, needs no
more levels than that.
-/

namespace TreeRender

variable {F α : Type}

namespace Node

/-- Whether a node can hold nodes: elements and collections can. -/
def isBranch : Node F → Bool
  | .collection _ => true
  | .element _ => true
  | _ => false

def inner : Node F → List (Node F)
  | .collection nodes => nodes
  | .element e => e.children.toList
  | _ => []

/-- A way down a tree: each node stands right below the one before. -/
def IsPath (path : List (Node F)) : Prop := path.IsChain fun n m => m ∈ n.inner

private theorem fullComplexity_le_of_mem {nodes : List (Node F)} {n : Node F} (h : n ∈ nodes) :
    n.fullComplexity ≤ fullComplexities nodes := by
  induction nodes with
  | nil => cases h
  | cons m rest ih =>
    rw [fullComplexities]
    rcases List.mem_cons.1 h with rfl | h
    · exact Nat.le_add_right _ _
    · exact Nat.le_trans (ih h) (Nat.le_add_left _ _)

private theorem fullComplexity_inner {n m : Node F} (h : m ∈ n.inner) :
    m.fullComplexity + 1 ≤ n.fullComplexity := by
  cases n with
  | collection nodes =>
    have hmember : m.fullComplexity ≤ fullComplexities nodes := fullComplexity_le_of_mem h
    rw [fullComplexity]
    omega
  | element e =>
    have hchild : e.children = some m := Option.mem_toList.1 h
    rw [fullComplexity_element, hchild]
    simp only [Element.size, hchild, Option.isSome_some, if_true, Option.map_some, Option.getD_some]
    omega
  | _ => cases h

private theorem isBranch_of_inner {n m : Node F} (h : m ∈ n.inner) : n.isBranch = true := by
  cases n with
  | collection nodes => rfl
  | element e => rfl
  | _ => cases h

private theorem countP_isBranch_le {n : Node F} {path : List (Node F)} (h : IsPath (n :: path)) :
    (n :: path).countP isBranch ≤ n.fullComplexity + 1 := by
  induction path generalizing n with
  | nil =>
    have hone : [n].countP isBranch ≤ [n].length := List.countP_le_length
    exact Nat.le_trans hone (Nat.le_add_left 1 _)
  | cons m rest ih =>
    obtain ⟨hm, hrest⟩ := List.isChain_cons_cons.1 h
    have hbelow := ih hrest
    have hinner := fullComplexity_inner hm
    rw [List.countP_cons_of_pos (isBranch_of_inner hm)]
    omega

end Node

/-- A query that descends through a tree: what it makes of a leaf, of what the members of a
collection come to, and of an element and what its children come to. -/
structure Descent (F α : Type) where
  leaf : Node F → α
  collection : List α → α
  element : Element F (Node F) → Option α → α

namespace Descent

/-- Descends through at most `levels` elements and collections inside of each other. Nothing comes
out if that does not suffice. -/
def within (q : Descent F α) : (levels : Nat) → Node F → Option α
  | 0, n => if n.isBranch then none else some (q.leaf n)
  | levels + 1, .collection nodes => (nodes.mapM (q.within levels)).map q.collection
  | levels + 1, .element e =>
    match e.children with
    | none => some (q.element e none)
    | some child => (q.within levels child).map fun a => q.element e (some a)
  | _ + 1, n => some (q.leaf n)

structure Gives (q : Descent F α) (f : Node F → α) : Prop where
  leaf : ∀ n, n.isBranch = false → f n = q.leaf n
  collection : ∀ nodes, f (.collection nodes) = q.collection (nodes.map f)
  element : ∀ e, f (.element e) = q.element e (e.children.map f)

private theorem Gives.within_eq {q : Descent F α} {f : Node F → α} (h : q.Gives f) {levels : Nat}
    {n : Node F} (hlevels : n.fullComplexity < levels) : q.within levels n = some (f n) := by
  induction levels generalizing n with
  | zero => cases hlevels
  | succ levels ih =>
    have below {m : Node F} (hm : m ∈ n.inner) : q.within levels m = some (f m) := by
      have hinner := Node.fullComplexity_inner hm
      exact ih (by omega)
    cases n with
    | collection nodes =>
      have members : nodes.mapM (q.within levels) = some (nodes.map f) := by
        clear hlevels
        induction nodes with
        | nil => rfl
        | cons m rest ihrest =>
          rw [List.mapM_cons, below (m := m) (by simp [Node.inner]),
            ihrest fun hk => below (List.mem_cons_of_mem m hk)]
          rfl
      rw [within, members, h.collection]
      rfl
    | element e =>
      rw [within, h.element]
      cases hchildren : e.children with
      | none => rfl
      | some child =>
        simp only [below (m := child) (by simp [Node.inner, hchildren])]
        rfl
    | _ => exact congrArg some (h.leaf _ rfl).symm

def functions : Descent F Bool where
  leaf n := n.kind = .component
  collection found := found.any id
  element e found := e.ownFunction || found.getD false

/-- Counting levels. A collection of no children adds none. -/
def levels : Descent F Nat where
  leaf _ := 1
  collection heights := max 1 (heights.foldr max 0)
  element e height :=
    if e.isEntered then
      match e.children with
      | some (.collection []) => 1
      | _ => 1 + height.getD 0
    else 1

def spelling : Descent F (List Char) where
  leaf
    | .text value => 't' :: Signature.ofText value.text
    | .component _ => ['!']
    | _ => ['_']
  collection spelled := '[' :: spelled.flatten ++ [']']
  element e spelled :=
    '<' :: (Signature.ofHead e.tag e.attributes e.text ++ (spelled.getD [] ++ ['>']))

private theorem gives_functions : (functions : Descent F Bool).Gives Node.containsFunction where
  leaf n hn := by
    cases n with
    | collection nodes => cases hn
    | element e => cases hn
    | _ => rfl
  collection nodes := by
    rw [Node.containsFunction]
    induction nodes with
    | nil => rfl
    | cons n rest ih => rw [Node.anyContainsFunction, ih]; rfl
  element e := by
    change e.containsFunction = _
    rw [e.containsFunction_eq_own]
    cases e.children <;> rfl

private theorem maxHeight_eq (nodes : List (Node F)) :
    Node.maxHeight nodes = (nodes.map Node.height).foldr max 0 := by
  induction nodes with
  | nil => rfl
  | cons n rest ih => rw [Node.maxHeight, ih]; rfl

private theorem gives_levels : (levels : Descent F Nat).Gives Node.height where
  leaf n hn := by
    cases n with
    | collection nodes => cases hn
    | element e => cases hn
    | _ => rfl
  collection nodes := by rw [Node.height, maxHeight_eq]; rfl
  element e := by
    change e.height = _
    rw [e.height_eq]
    simp only [levels]
    split
    · cases hchildren : e.children with
      | none => rw [e.childNodes_none hchildren]; rfl
      | some child =>
        rw [e.childNodes_some hchildren]
        cases child with
        | collection nodes =>
          cases nodes with
          | nil => rfl
          | cons n rest =>
            have hone : 1 ≤ Node.maxHeight (n :: rest) :=
              Nat.le_trans n.one_le_height (Nat.le_max_left _ _)
            simp only [Node.asChildren, Option.map_some, Option.getD_some, Node.height]
            omega
        | _ => simp [Node.asChildren, Node.maxHeight]
    · rfl

private theorem gives_spelling : (spelling : Descent F (List Char)).Gives Signature.ofNode where
  leaf n hn := by
    cases n with
    | collection nodes => cases hn
    | element e => cases hn
    | _ => rfl
  collection nodes := by
    have members : Signature.ofNodes nodes = (nodes.map Signature.ofNode).flatten := by
      induction nodes with
      | nil => rfl
      | cons n rest ih => rw [Signature.ofNodes, ih]; rfl
    rw [Signature.ofNode, members]
    rfl
  element e := by
    rw [Signature.ofNode_element]
    cases e.children <;> rfl

end Descent

private theorem Config.complexity_le_of_isCacheable {config : Config} {e : Element F (Node F)}
    (h : config.isCacheable e = true) :
    e.complexity config.cacheComplexityLimit ≤ config.cacheComplexityLimit := by
  simp only [isCacheable, Bool.and_eq_true, decide_eq_true_eq] at h
  exact h.1.2

/-- Counting that stops early decides what full counting decides. So a higher limit lets more
elements be cached, and no element is cached that is nested deeper than one level past the limit:
where counting stays within the limit, looking for functions, counting levels and spelling out the
signature descend no deeper than that. -/
theorem complexity_decides (e : Element F (Node F)) :
    (∀ limit, (e.complexity limit ≤ limit ↔ e.fullComplexity ≤ limit) ∧
      (e.complexity limit ≤ limit → e.complexity limit = e.fullComplexity)) ∧
    (∀ (config : Config) (limit : Nat), config.cacheComplexityLimit ≤ limit →
      config.isCacheable e = true →
        { config with cacheComplexityLimit := limit }.isCacheable e = true) ∧
    (∀ (config : Config) (path : List (Node F)), Node.IsPath (.element e :: path) →
      config.cacheComplexityLimit + 1 < (Node.element e :: path).countP Node.isBranch →
        config.isCacheable e = false) ∧
    ∀ limit, e.complexity limit ≤ limit →
      Descent.functions.within (limit + 1) (.element e) = some e.containsFunction ∧
      Descent.levels.within (limit + 1) (.element e) = some e.height ∧
      Descent.spelling.within (limit + 1) (.element e) =
        some ('<' :: (e.signature.toList ++ ['>'])) := by
  have decides (limit : Nat) : e.complexity limit ≤ limit ↔ e.fullComplexity ≤ limit := by
    rw [← Nat.not_lt, e.lt_complexity, Nat.not_lt]
  refine ⟨fun limit => ⟨decides limit, fun hlimit => ?_⟩, ?_, ?_, ?_⟩
  · exact (e.countsUpTo_complexity limit).exact ((decides limit).1 hlimit)
  · intro config limit hlimit hcacheable
    have hcount := (decides _).1 (Config.complexity_le_of_isCacheable hcacheable)
    have hfits : e.complexity limit ≤ limit := (decides limit).2 (Nat.le_trans hcount hlimit)
    simp only [Config.isCacheable, Bool.and_eq_true, decide_eq_true_eq] at hcacheable ⊢
    exact ⟨⟨hcacheable.1.1, hfits⟩, hcacheable.2⟩
  · intro config path hpath hdeep
    rw [Bool.eq_false_iff]
    intro hcacheable
    have hcount : (Node.element e).fullComplexity ≤ config.cacheComplexityLimit :=
      (decides _).1 (Config.complexity_le_of_isCacheable hcacheable)
    have hbranches := Node.countP_isBranch_le hpath
    omega
  · intro limit hlimit
    have hlevels : (Node.element e).fullComplexity < limit + 1 :=
      Nat.lt_succ_of_le ((decides limit).1 hlimit)
    refine ⟨Descent.gives_functions.within_eq hlevels, Descent.gives_levels.within_eq hlevels, ?_⟩
    rw [Descent.gives_spelling.within_eq hlevels, e.ofNode_eq_signature]

/-- A list with one item: two keys, a collection and a text count. -/
def shoppingList : Element String (Node String) :=
  (Element.new "ul").withChildren [.element ((Element.new "li").child (.text (.str "milk")))]

theorem complexity_decides_shopping :
    shoppingList.complexity 4 = shoppingList.fullComplexity ∧
    shoppingList.fullComplexity = 4 ∧ 2 < shoppingList.complexity 2 ∧
    ({ cacheComplexityLimit := 9 } : Config).isCacheable shoppingList = true ∧
    ({ cacheComplexityLimit := 1 } : Config).isCacheable shoppingList = false ∧
    Descent.levels.within 5 (.element shoppingList) = some 3 := by
  obtain ⟨hcounts, hmonotone, hnested, hdescents⟩ := complexity_decides shoppingList
  have hfull := (hcounts 4).2 (by decide)
  refine ⟨hfull, rfl, by decide, ?_, ?_, (hdescents 4 (by decide)).2.1⟩
  · exact hmonotone { cacheComplexityLimit := 4 } 9 (by decide) (by decide)
  · have hpath : Node.IsPath [.element shoppingList,
        .collection [.element ((Element.new "li").child (.text (.str "milk")))],
        .element ((Element.new "li").child (.text (.str "milk")))] := by
      simp [Node.IsPath, Node.inner, shoppingList, Element.withChildren]
    exact hnested { cacheComplexityLimit := 1 } _ hpath (by decide)

end TreeRender
