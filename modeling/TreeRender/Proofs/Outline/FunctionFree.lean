import TreeRender.Proofs.Outline.Markup

/-!
# Trees without functions

A tree without functions has one outline, which needs no program to be told: `Node.outline`. A walk
that goes over it finds this outline if the tree fits under the depth limit and the error of the
first level past it if not, and calls nothing. Its markup publishes nothing, in whichever order it
is written.
-/

namespace TreeRender

open Markup

variable {F σ : Type}

/-- The outline of a text directive that is no function. -/
def directiveOutline : Option (Directive F) → Outline F
  | some (.literal text) => .text text .nil
  | _ => .nil

mutual

def Node.outline : Node F → Outline F
  | .empty => .nil
  | .text value => .text value.text .nil
  | .component _ => .nil
  | .collection nodes => Node.outlines nodes
  | .element ⟨tag, attributes, directive, none, h⟩ =>
    if isValidName tag then
      .element ⟨tag, attributes, directive, none, h⟩
        (if isVoid tag then .nil else directiveOutline directive) .nil
    else .nil
  | .element ⟨tag, attributes, directive, some child, h⟩ =>
    if isValidName tag then
      .element ⟨tag, attributes, directive, some child, h⟩
        (if isVoid tag then .nil else directiveOutline directive ++ child.outline) .nil
    else .nil

def Node.outlines : List (Node F) → Outline F
  | [] => .nil
  | n :: rest => n.outline ++ Node.outlines rest

end

theorem outlines_eq_join (nodes : List (Node F)) :
    Node.outlines nodes = Outline.join (nodes.map Node.outline) := by
  induction nodes with
  | nil => rfl
  | cons n rest ih => simp only [Node.outlines, List.map_cons, Outline.join, ih]

def childrenOutline : Option (Node F) → Outline F
  | none => .nil
  | some child => child.outline

def Node.asChildren : Node F → List (Node F)
  | .collection nodes => nodes
  | node => [node]

namespace Element

variable (e : Element F (Node F))

theorem childNodes_none (hc : e.children = none) : e.childNodes = [] := by rw [childNodes, hc]

theorem childNodes_some {child : Node F} (hc : e.children = some child) :
    e.childNodes = child.asChildren := by
  rw [childNodes, hc]
  cases child <;> rfl

def around (content : Outline F) : Outline F :=
  if isValidName e.tag then .element e (if isVoid e.tag then .nil else content) .nil else .nil

def outline : Outline F := (Node.element e).outline

theorem outline_eq (h : isValidName e.tag = true) :
    e.outline = .element e (if isVoid e.tag then .nil
      else directiveOutline e.text ++ childrenOutline e.children) .nil := by
  obtain ⟨tag, attributes, directive, children, nodup⟩ := e
  cases children <;> simp [outline, Node.outline, childrenOutline, h]

private theorem join_childNodes :
    Outline.join (e.childNodes.map Node.outline) = childrenOutline e.children := by
  unfold childNodes
  cases e.children with
  | none => rfl
  | some child =>
    cases child with
    | collection nodes => exact (outlines_eq_join nodes).symm
    | _ => exact Outline.append_nil _

theorem outline_invalid (h : isValidName e.tag = false) : e.outline = .nil := by
  obtain ⟨tag, attributes, directive, children, nodup⟩ := e
  cases children <;> simp [outline, Node.outline, h]

theorem outline_around :
    e.outline = e.around (directiveOutline e.text ++ childrenOutline e.children) := by
  unfold around
  cases hvalid : isValidName e.tag with
  | false => exact e.outline_invalid hvalid
  | true => exact e.outline_eq hvalid

theorem height_eq : e.height = if e.isEntered then 1 + Node.maxHeight e.childNodes else 1 := by
  obtain ⟨tag, attributes, directive, children, nodup⟩ := e
  cases children with
  | none => simp [height, Node.height, childNodes, Node.maxHeight]
  | some child => cases child <;> simp [height, Node.height, childNodes, Node.maxHeight, isEntered]

theorem containsFunction_eq :
    e.containsFunction = (e.ownFunction || Node.anyContainsFunction e.childNodes) := by
  obtain ⟨tag, attributes, directive, children, nodup⟩ := e
  cases children with
  | none => simp [containsFunction, Node.containsFunction, childNodes, Node.anyContainsFunction]
  | some child =>
    cases child <;>
      simp [containsFunction, Node.containsFunction, childNodes, Node.anyContainsFunction,
        ownFunction]

theorem function_free (h : e.containsFunction = false) :
    e.attributes.any (fun (_, value) => value.isHandler) = false ∧
      ∀ n, e.children = some n → n.containsFunction = false := by
  obtain ⟨tag, attributes, directive, children, nodup⟩ := e
  cases children with
  | none =>
    simp only [containsFunction, Node.containsFunction, ownFunction, Bool.or_eq_false_iff] at h
    exact ⟨h.2, fun _ hn => nomatch hn⟩
  | some child =>
    simp only [containsFunction, Node.containsFunction, ownFunction, Bool.or_eq_false_iff] at h
    refine ⟨h.1.2, fun n hn => ?_⟩
    cases hn
    exact h.2

end Element

theorem Node.one_le_height (n : Node F) : 1 ≤ n.height := by
  cases n with
  | element e =>
    have h := e.height_eq
    change (Node.element e).height = _ at h
    rw [h]
    split <;> omega
  | collection nodes => exact Nat.le_max_left _ _
  | _ => exact Nat.le_refl 1

theorem Node.maxHeight_le {nodes : List (Node F)} {levels : Nat} :
    Node.maxHeight nodes ≤ levels ↔ ∀ n ∈ nodes, n.height ≤ levels := by
  induction nodes with
  | nil => simp [Node.maxHeight]
  | cons n rest ih => rw [Node.maxHeight, List.forall_mem_cons, Nat.max_le, ih]

theorem Node.anyContainsFunction_eq_false {nodes : List (Node F)}
    (h : Node.anyContainsFunction nodes = false) (n : Node F) (hn : n ∈ nodes) :
    n.containsFunction = false := by
  induction nodes with
  | nil => simp at hn
  | cons m rest ih =>
    simp only [Node.anyContainsFunction, Bool.or_eq_false_iff] at h
    rcases List.mem_cons.1 hn with rfl | hn
    · exact h.1
    · exact ih h.2 hn

def WalkState.addElements {β : Type} (s : WalkState σ β) (k : Nat) : WalkState σ β :=
  { s with counters := { s.counters with elements := s.counters.elements + k } }

private theorem WalkState.addElements_addElements {β : Type} (s : WalkState σ β) (k l : Nat) :
    (s.addElements k).addElements l = s.addElements (k + l) := by
  simp [WalkState.addElements, Nat.add_assoc]

section

variable (program : Program F σ) (config : Config)

private theorem exec_walkEach_heights {f : Node F → Walk σ Unit (Outline F)} {levels : Nat}
    {e : RenderError} (nodes : List (Node F))
    (h : ∀ n ∈ nodes, ∀ s, ∃ k, (f n).exec s =
      (if n.height ≤ levels then .ok n.outline else .error e, s.addElements k))
    (s : WalkState σ Unit) : ∃ k, (walkEach f nodes).exec s =
      (if Node.maxHeight nodes ≤ levels then .ok (nodes.map Node.outline) else .error e,
        s.addElements k) := by
  induction nodes generalizing s with
  | nil => exact ⟨0, rfl⟩
  | cons n rest ih =>
    obtain ⟨k, hk⟩ := h n (by simp) s
    obtain ⟨l, hl⟩ := ih (fun m hm => h m (by simp [hm])) (s.addElements k)
    have hmax : Node.maxHeight (n :: rest) ≤ levels ↔
        n.height ≤ levels ∧ Node.maxHeight rest ≤ levels := by
      simp only [Node.maxHeight]
      omega
    by_cases hn : n.height ≤ levels
    · rw [if_pos hn] at hk
      refine ⟨k + l, ?_⟩
      rw [walkEach, Walk.exec_bind_ok _ hk, Walk.exec_bind, hl, WalkState.addElements_addElements]
      by_cases hrest : Node.maxHeight rest ≤ levels
      · rw [if_pos hrest, if_pos (hmax.2 ⟨hn, hrest⟩)]
        rfl
      · rw [if_neg hrest, if_neg fun hall => hrest (hmax.1 hall).2]
    · rw [if_neg hn] at hk
      refine ⟨k, ?_⟩
      rw [walkEach, Walk.exec_bind_error _ hk, if_neg fun hall => hn (hmax.1 hall).1]

private theorem exec_walkDirective_functionFree {directive : Option (Directive F)}
    (h : directive.any Directive.isComputed = false) (s : WalkState σ Unit) :
    ∃ os, (walkDirective program config Outline.backend directive).exec s = (.ok os, s) ∧
      Outline.join os = directiveOutline directive := by
  match directive with
  | none => exact ⟨[], rfl, rfl⟩
  | some (.literal text) => exact ⟨[.text text .nil], rfl, rfl⟩
  | some (.computed name) => simp [Directive.isComputed] at h

theorem exec_buildElement_functionFree {below : Node F → Walk σ Unit (Outline F)} {levels : Nat}
    {error : RenderError} {e : Element F (Node F)} (hvalid : isValidName e.tag = true)
    (he : e.containsFunction = false)
    (h : ∀ n, n.containsFunction = false → ∀ s, ∃ k, (below n).exec s =
      (if n.height ≤ levels then .ok n.outline else .error error, s.addElements k))
    (s : WalkState σ Unit) : ∃ k,
      (buildElement program config Outline.backend below e).exec s =
        (if e.height ≤ levels + 1 then .ok e.outline else .error error, s.addElements k) := by
  rw [e.containsFunction_eq, Bool.or_eq_false_iff] at he
  obtain ⟨hown, hchildren⟩ := he
  rw [e.outline_eq hvalid]
  cases hvoid : isVoid e.tag with
  | true =>
    refine ⟨0, ?_⟩
    have hheight : e.height = 1 := by rw [e.height_eq]; simp [Element.isEntered, hvoid]
    rw [buildElement_void hvoid, hheight, if_pos (Nat.le_add_left 1 levels)]
    rfl
  | false =>
    have hheight : e.height = 1 + Node.maxHeight e.childNodes := by
      rw [e.height_eq]
      simp [Element.isEntered, hvalid, hvoid]
    have hdirective : e.text.any Directive.isComputed = false := by
      simp only [Element.ownFunction, Bool.or_eq_false_iff] at hown
      exact hown.1
    obtain ⟨os, hos, hjoin⟩ := exec_walkDirective_functionFree program config hdirective s
    obtain ⟨k, hk⟩ := exec_walkEach_heights e.childNodes
      (fun n hn => h n (Node.anyContainsFunction_eq_false hchildren n hn)) s
    refine ⟨k, ?_⟩
    rw [buildElement_content hvoid, Walk.exec_bind_ok _ (t := s) rfl, Walk.exec_bind_ok _ hos,
      Walk.exec_bind, hk, hheight, ← e.join_childNodes, ← hjoin, ← Outline.join_append]
    by_cases hfits : Node.maxHeight e.childNodes ≤ levels
    · rw [if_pos hfits, if_pos (by omega)]
      rfl
    · rw [if_neg hfits, if_neg (by omega)]

private theorem exec_walkElement_functionFree {below : Node F → Walk σ Unit (Outline F)}
    {levels : Nat}
    {error : RenderError} (depth : Nat) {e : Element F (Node F)} (he : e.containsFunction = false)
    (h : ∀ n, n.containsFunction = false → ∀ s, ∃ k, (below n).exec s =
      (if n.height ≤ levels then .ok n.outline else .error error, s.addElements k))
    (s : WalkState σ Unit) : ∃ k,
      (walkElement program config Outline.backend below depth e).exec s =
        (if e.height ≤ levels + 1 then .ok e.outline else .error error, s.addElements k) := by
  cases hvalid : isValidName e.tag with
  | false =>
    refine ⟨0, ?_⟩
    have hheight : e.height = 1 := by rw [e.height_eq]; simp [Element.isEntered, hvalid]
    rw [walkElement_invalid hvalid, e.outline_invalid hvalid, hheight,
      if_pos (Nat.le_add_left 1 levels)]
    rfl
  | true =>
    obtain ⟨k, hk⟩ := exec_buildElement_functionFree program config hvalid he h (s.addElements 1)
    refine ⟨1 + k, ?_⟩
    rw [walkElement_uncached hvalid rfl, Walk.exec_bind_ok _ (t := s.addElements 1) rfl, hk,
      WalkState.addElements_addElements]

/-- Outlining a tree without functions succeeds exactly if the tree fits under the depth limit. It
only counts elements. -/
theorem exec_outlineFrom_functionFree {n : Node F} (hn : n.containsFunction = false)
    (levels depth : Nat) (s : WalkState σ Unit) : ∃ k,
      (outlineFrom program config levels depth n).exec s =
        (if n.height ≤ levels then .ok n.outline
          else .error (config.depthError (depth + levels)), s.addElements k) := by
  rw [outlineFrom, Traversal.walkFrom_eq_visit]
  induction levels generalizing depth n s with
  | zero =>
    refine ⟨0, ?_⟩
    rw [if_neg (by have := n.one_le_height; omega)]
    rfl
  | succ levels ih =>
    have herror : config.depthError (depth + (levels + 1)) =
        config.depthError (depth + 1 + levels) := by rw [Nat.add_right_comm, Nat.add_assoc]
    rw [herror, Traversal.visit]
    induction n using Node.inductOn generalizing s with
    | empty => exact ⟨0, rfl⟩
    | text value => exact ⟨0, rfl⟩
    | component c => simp [Node.containsFunction] at hn
    | collection nodes ihnodes =>
      obtain ⟨k, hk⟩ := exec_walkEach_heights nodes
        (fun n hmem s => ihnodes n hmem (Node.anyContainsFunction_eq_false hn n hmem) s) s
      refine ⟨k, ?_⟩
      have hheight : (Node.collection nodes).height ≤ levels + 1 ↔
          Node.maxHeight nodes ≤ levels + 1 := by
        simp only [Node.height]
        omega
      rw [Traversal.visitLevel, Traversal.visitMembers_eq, Walk.exec_bind, hk]
      by_cases hfits : Node.maxHeight nodes ≤ levels + 1
      · rw [if_pos hfits, if_pos (hheight.2 hfits), Node.outline, outlines_eq_join]
        rfl
      · rw [if_neg hfits, if_neg fun h => hfits (hheight.1 h)]
    | element e _ =>
      exact exec_walkElement_functionFree program config depth hn
        (fun n hn s => ih hn (depth + 1) s) s

theorem outlining_functionFree {n : Node F} (hn : n.containsFunction = false) (state : σ) :
    (outlining program config n state).1 = (if n.height ≤ config.maxDepth then .ok n.outline
      else .error (config.depthError (config.maxDepth + 1))) ∧
    (outlining program config n state).2.counters.errors = 0 := by
  obtain ⟨k, hk⟩ := exec_outlineFrom_functionFree program config hn (config.levelsAt 1) 1
    (outlineStart state)
  have hlevels : config.levelsAt 1 = config.maxDepth := Nat.add_sub_cancel ..
  rw [hlevels, Nat.add_comm 1] at hk
  rw [outlining, hlevels, hk]
  exact ⟨rfl, rfl⟩

private theorem eq_of_ite_ok {p : Prop} [Decidable p] {o o' : Outline F} {error : RenderError}
    (h : (if p then .ok o else .error error : Except RenderError (Outline F)) = .ok o') :
    o' = o := by
  by_cases hp : p
  · rw [if_pos hp] at h
    cases h
    rfl
  · rw [if_neg hp] at h
    cases h

theorem outline_of_exec {n : Node F} (hn : n.containsFunction = false) {levels depth : Nat}
    {s s' : WalkState σ Unit} {o : Outline F}
    (h : (outlineFrom program config levels depth n).exec s = (.ok o, s')) : o = n.outline := by
  obtain ⟨k, hk⟩ := exec_outlineFrom_functionFree program config hn levels depth s
  rw [hk] at h
  exact eq_of_ite_ok (Prod.mk.inj h).1

theorem outline_of_buildElement {e : Element F (Node F)} (hvalid : isValidName e.tag = true)
    (he : e.containsFunction = false) {levels depth : Nat} {s s' : WalkState σ Unit}
    {o : Outline F} (h : (buildElement program config Outline.backend
      (outlineFrom program config levels depth) e).exec s = (.ok o, s')) : o = e.outline := by
  have outlined := exec_buildElement_functionFree program config hvalid he
    (fun n hn t => exec_outlineFrom_functionFree program config hn levels depth t)
  obtain ⟨k, hk⟩ := outlined s
  rw [hk] at h
  exact eq_of_ite_ok (Prod.mk.inj h).1

end

namespace Outline

/-- An outline in which nothing failed and no element has a handler. -/
def Static : Outline F → Prop
  | .nil => True
  | .text _ rest => rest.Static
  | .fallback _ => False
  | .element e content rest =>
    e.attributes.any (fun (_, value) => value.isHandler) = false ∧ content.Static ∧ rest.Static

theorem Static.append {o o' : Outline F} (h : o.Static) (h' : o'.Static) : (o ++ o').Static := by
  induction o with
  | nil => exact h'
  | text content rest ih => exact ih h
  | fallback rest _ => exact h.elim
  | element e content rest _ ih => exact ⟨h.1, h.2.1, ih h.2.2⟩

private theorem tagAttributes_static {attributes : List (Attribute F)}
    (h : ∀ event handler, .listener event handler ∉ attributes) (hydrate : Bool) (r : Registry F) :
    tagAttributes hydrate attributes r = (String.join (attributes.map attributeText), r) := by
  induction attributes with
  | nil => rfl
  | cons a rest ih =>
    have hrest := ih fun event handler hmem => h event handler (List.mem_cons_of_mem _ hmem)
    rw [tagAttributes, List.map_cons, String.join_cons]
    cases a with
    | value name text => simp only [tagAttribute, hrest]
    | present name => simp only [tagAttribute, hrest]
    | listener event handler => exact absurd List.mem_cons_self (h event handler)

theorem openText_static {N : Type} {e : Element F N}
    (h : e.attributes.any (fun (_, value) => value.isHandler) = false) (hydrate : Bool)
    (r : Registry F) : openText hydrate e r = (dryTag e, r) := by
  have hmapped (event : String) (handler : F) : .listener event handler ∉ e.mapped := by
    intro hmem
    obtain ⟨⟨key, value⟩, hentry, hvalue⟩ := List.mem_filterMap.1 hmem
    have hhandler : value.isHandler = false := by
      have := List.any_eq_false.1 h (key, value) hentry
      simpa using this
    cases value with
    | handler name => cases hhandler
    | bool b => cases b <;> cases hvalue
    | _ => cases hvalue
  rw [openText, tagAttributes_static hmapped]
  rfl

/-- The markup of a static outline depends neither on the order in which it is written, nor on
hydration or the fallback. -/
theorem Static.bottomUp_eq {o : Outline F} (h : o.Static) (hydrate : Bool) (fallback : String)
    (r : Registry F) : o.bottomUp hydrate fallback r = (o.markup "", r) := by
  induction o generalizing r with
  | nil => rfl
  | text content rest ih => simp only [bottomUp, markup, ih h]
  | fallback rest _ => exact h.elim
  | element e content rest ihc ih =>
    simp only [bottomUp, markup, ihc h.2.1, ih h.2.2, openText_static h.1]

theorem Static.topDown_eq {o : Outline F} (h : o.Static) (hydrate : Bool) (fallback : String)
    (r : Registry F) : o.topDown hydrate fallback r = (o.markup "", r) := by
  induction o generalizing r with
  | nil => rfl
  | text content rest ih => simp only [topDown, markup, ih h]
  | fallback rest _ => exact h.elim
  | element e content rest ihc ih =>
    simp only [topDown, markup, ihc h.2.1, ih h.2.2, openText_static h.1]

end Outline

private theorem directiveOutline_static (directive : Option (Directive F)) :
    (directiveOutline directive).Static := by
  match directive with
  | none => trivial
  | some (.literal _) => trivial
  | some (.computed _) => trivial

theorem Node.static_outline {n : Node F} (hn : n.containsFunction = false) : n.outline.Static := by
  induction n using Node.inductOn with
  | empty => trivial
  | text value => trivial
  | component c => trivial
  | collection nodes ih =>
    have hnodes : Node.anyContainsFunction nodes = false := hn
    rw [Node.outline, outlines_eq_join]
    have members (n : Node F) (hmem : n ∈ nodes) : n.outline.Static :=
      ih n hmem (Node.anyContainsFunction_eq_false hnodes n hmem)
    clear ih hn hnodes
    induction nodes with
    | nil => trivial
    | cons n rest ihrest =>
      exact (members n (by simp)).append (ihrest fun m hm => members m (by simp [hm]))
  | element e ih =>
    change e.containsFunction = false at hn
    change e.outline.Static
    cases hvalid : isValidName e.tag with
    | false => rw [e.outline_invalid hvalid]; trivial
    | true =>
      obtain ⟨hattributes, hchildren⟩ := e.function_free hn
      have hcontent : (childrenOutline e.children).Static := by
        cases hc : e.children with
        | none => trivial
        | some child => exact ih child hc (hchildren child hc)
      rw [e.outline_eq hvalid]
      refine ⟨hattributes, ?_, trivial⟩
      cases isVoid e.tag with
      | true => trivial
      | false => exact (directiveOutline_static e.text).append hcontent

def Element.plainMarkup (e : Element F (Node F)) : String := e.outline.markup ""

end TreeRender
