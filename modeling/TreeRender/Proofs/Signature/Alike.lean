import Mathlib.Data.List.Forall2
import TreeRender.Proofs.Outline.FunctionFree

/-!
# Trees that are alike

Two trees are alike if they differ in nothing that markup shows, functions apart: numbers count by
their text, and so do the scalars of text nodes. Of functions only the place counts.
-/

namespace TreeRender

open Markup

variable {F N : Type}

def AttrValue.Alike : AttrValue F → AttrValue F → Prop
  | .null, .null => True
  | .str text, .str text' => text = text'
  | .number x, .number y => Decimal.text x = Decimal.text y
  | .bool b, .bool b' => b = b'
  | .style declarations, .style declarations' => declarations = declarations'
  | .handler _, .handler _ => True
  | _, _ => False

/-- The same keys in the same order, with values that are alike. -/
def AttributesAlike : List (String × AttrValue F) → List (String × AttrValue F) → Prop
  | [], [] => True
  | (key, value) :: rest, (key', value') :: rest' =>
    key = key' ∧ value.Alike value' ∧ AttributesAlike rest rest'
  | _, _ => False

def DirectivesAlike : Option (Directive F) → Option (Directive F) → Prop
  | none, none => True
  | some (.literal text), some (.literal text') => text = text'
  | some (.computed _), some (.computed _) => True
  | _, _ => False

theorem AttributesAlike.forall₂ {attributes attributes' : List (String × AttrValue F)}
    (h : AttributesAlike attributes attributes') :
    List.Forall₂ (fun x y => x.1 = y.1 ∧ x.2.Alike y.2) attributes attributes' := by
  induction attributes generalizing attributes' with
  | nil =>
    cases attributes' with
    | nil => exact .nil
    | cons _ _ => exact h.elim
  | cons x xs ih =>
    cases attributes' with
    | nil => exact h.elim
    | cons y ys => exact .cons ⟨h.1, h.2.1⟩ (ih h.2.2)

theorem DirectivesAlike.cases {P : Option (Directive F) → Option (Directive F) → Prop}
    {d d' : Option (Directive F)} (h : DirectivesAlike d d') (none : P none none)
    (literal : ∀ text, P (some (.literal text)) (some (.literal text)))
    (computed : ∀ f g, P (some (.computed f)) (some (.computed g))) : P d d' := by
  cases d with
  | none =>
    cases d' with
    | none => exact none
    | some _ => exact h.elim
  | some d =>
    cases d' with
    | none => cases d <;> exact h.elim
    | some d' =>
      cases d <;> cases d' <;> try exact h.elim
      · obtain rfl : _ = _ := h
        exact literal _
      · exact computed _ _

structure HeadsAlike (e e' : Element F N) : Prop where
  tag : e.tag = e'.tag
  attributes : AttributesAlike e.attributes e'.attributes
  text : DirectivesAlike e.text e'.text

mutual

def Node.Alike : Node F → Node F → Prop
  | .empty, .empty => True
  | .text value, .text value' => value.text = value'.text
  | .component _, .component _ => True
  | .collection nodes, .collection nodes' => Node.AllAlike nodes nodes'
  | .element ⟨tag, attributes, directive, none, h⟩,
      .element ⟨tag', attributes', directive', none, h'⟩ =>
    HeadsAlike (⟨tag, attributes, directive, none, h⟩ : Element F (Node F))
      ⟨tag', attributes', directive', none, h'⟩
  | .element ⟨tag, attributes, directive, some child, h⟩,
      .element ⟨tag', attributes', directive', some child', h'⟩ =>
    HeadsAlike (⟨tag, attributes, directive, none, h⟩ : Element F (Node F))
      ⟨tag', attributes', directive', none, h'⟩ ∧ child.Alike child'
  | _, _ => False

def Node.AllAlike : List (Node F) → List (Node F) → Prop
  | [], [] => True
  | n :: rest, n' :: rest' => n.Alike n' ∧ Node.AllAlike rest rest'
  | _, _ => False

end

theorem Node.alike_element {e e' : Element F (Node F)} :
    (Node.element e).Alike (.element e') ↔
      HeadsAlike e e' ∧ Option.Rel Node.Alike e.children e'.children := by
  obtain ⟨tag, attributes, directive, children, h⟩ := e
  obtain ⟨tag', attributes', directive', children', h'⟩ := e'
  have heads : HeadsAlike (⟨tag, attributes, directive, children, h⟩ : Element F (Node F))
      ⟨tag', attributes', directive', children', h'⟩ ↔
      HeadsAlike (⟨tag, attributes, directive, none, h⟩ : Element F (Node F))
      ⟨tag', attributes', directive', none, h'⟩ :=
    ⟨fun ⟨htag, hattributes, htext⟩ => ⟨htag, hattributes, htext⟩,
      fun ⟨htag, hattributes, htext⟩ => ⟨htag, hattributes, htext⟩⟩
  rw [heads]
  cases children with
  | none =>
    cases children' with
    | none => exact ⟨fun hh => ⟨hh, .none⟩, fun hh => hh.1⟩
    | some child' => exact ⟨False.elim, fun hh => nomatch hh.2⟩
  | some child =>
    cases children' with
    | none => exact ⟨False.elim, fun hh => nomatch hh.2⟩
    | some child' =>
      refine ⟨fun hh => ⟨hh.1, .some hh.2⟩, fun hh => ⟨hh.1, ?_⟩⟩
      cases hh.2 with
      | some hchild => exact hchild

theorem Node.allAlike_iff {nodes nodes' : List (Node F)} :
    Node.AllAlike nodes nodes' ↔ List.Forall₂ Node.Alike nodes nodes' := by
  induction nodes generalizing nodes' with
  | nil => cases nodes' <;> simp [Node.AllAlike]
  | cons n rest ih => cases nodes' <;> simp [Node.AllAlike, ih]

theorem Node.Alike.inductOn {P : Node F → Node F → Prop} {n n' : Node F} (h : n.Alike n')
    (empty : P .empty .empty)
    (text : ∀ value value', value.text = value'.text → P (.text value) (.text value'))
    (component : ∀ c c', P (.component c) (.component c'))
    (collection : ∀ nodes nodes', List.Forall₂ P nodes nodes' →
      P (.collection nodes) (.collection nodes'))
    (element : ∀ e e' : Element F (Node F), (Node.element e).Alike (.element e') →
      Option.Rel P e.children e'.children → P (.element e) (.element e')) : P n n' := by
  induction n using Node.inductOn generalizing n' with
  | empty =>
    cases n' <;> try exact h.elim
    exact empty
  | text value =>
    cases n' <;> try exact h.elim
    exact text _ _ h
  | component c =>
    cases n' <;> try exact h.elim
    exact component _ _
  | collection nodes ih =>
    cases n' <;> try exact h.elim
    rename_i nodes'
    apply collection
    have members : List.Forall₂ Node.Alike nodes nodes' := Node.allAlike_iff.1 h
    clear h
    induction members with
    | nil => exact .nil
    | cons hn _ ihmembers =>
      exact .cons (ih _ List.mem_cons_self hn)
        (ihmembers fun m hm => ih m (List.mem_cons_of_mem _ hm))
  | element e ih =>
    cases n' with
    | element e' =>
      obtain ⟨-, hchildren⟩ := Node.alike_element.1 h
      apply element e e' h
      clear h
      generalize e.children = children, e'.children = children' at hchildren ih
      cases hchildren with
      | none => exact .none
      | some hchild => exact .some (ih _ rfl hchild)
    | _ =>
      obtain ⟨tag, attributes, directive, children, nodup⟩ := e
      cases children <;> exact h.elim

/-- What an attribute comes to in an opening tag when nothing is published. -/
def keyText (key : String) (value : AttrValue F) : String :=
  ((Attribute.ofValue? key value).map attributeText).getD ""

private theorem join_mapped (e : Element F N) : String.join (e.mapped.map attributeText) =
    String.join (e.attributes.map fun (key, value) => keyText key value) := by
  unfold Element.mapped
  induction e.attributes with
  | nil => rfl
  | cons entry rest ih =>
    obtain ⟨key, value⟩ := entry
    rw [List.map_cons, String.join_cons, ← ih]
    unfold keyText
    cases h : Attribute.ofValue? key value with
    | none =>
      simp only [List.filterMap_cons, h]
      exact String.empty_append.symm
    | some a =>
      simp only [List.filterMap_cons, h]
      exact String.join_cons

private theorem keyText_handler (key : String) (name : F) : keyText key (.handler name) = "" := by
  unfold keyText Attribute.ofValue?
  cases eventType? key <;> rfl

private theorem AttrValue.Alike.keyText_eq {value value' : AttrValue F} (h : value.Alike value')
    (key : String) : keyText key value = keyText key value' := by
  cases value <;> cases value' <;> try exact h.elim
  case null => rfl
  case str => rw [show _ = _ from h]
  case number => exact congrArg (fun text => (some (attributeText (F := F)
    (.value (attributeName key) text))).getD "") h
  case bool => rw [show _ = _ from h]
  case style => rw [show _ = _ from h]
  case handler => rw [keyText_handler, keyText_handler]

private theorem AttributesAlike.texts_eq {attributes attributes' : List (String × AttrValue F)}
    (h : AttributesAlike attributes attributes') :
    (attributes.map fun (key, value) => keyText key value) =
      attributes'.map fun (key, value) => keyText key value := by
  have hall := h.forall₂
  clear h
  induction hall with
  | nil => rfl
  | cons hxy _ ih => simp only [List.map_cons, hxy.1, hxy.2.keyText_eq, ih]

private theorem HeadsAlike.dryTag_eq {e e' : Element F N} (h : HeadsAlike e e')
    : dryTag e = dryTag e' := by
  rw [dryTag, dryTag, join_mapped, join_mapped, h.tag,
    h.attributes.texts_eq]

private theorem DirectivesAlike.outline_eq {d d' : Option (Directive F)} (h : DirectivesAlike d d')
    :
    directiveOutline d = directiveOutline d' :=
  h.cases (P := fun d d' => directiveOutline d = directiveOutline d') rfl (fun _ => rfl)
    fun _ _ => rfl

theorem Node.Alike.markup_eq {n n' : Node F} (h : n.Alike n') (fallback : String) :
    n.outline.markup fallback = n'.outline.markup fallback := by
  apply Node.Alike.inductOn
    (P := fun n n' => n.outline.markup fallback = n'.outline.markup fallback) h
  case empty => rfl
  case text =>
    intro value value' hvalue
    exact congrArg (fun text => (Outline.text text .nil : Outline F).markup fallback) hvalue
  case component =>
    intro c c'
    rfl
  case collection =>
    intro nodes nodes' members
    simp only [Node.outline]
    induction members with
    | nil => rfl
    | cons hn _ ih =>
      rw [Node.outlines, Node.outlines, Outline.markup_append, Outline.markup_append, hn, ih]
  case element =>
    intro e e' halike hchildren
    have hhead := (Node.alike_element.1 halike).1
    have hcontent : (childrenOutline e.children).markup fallback =
        (childrenOutline e'.children).markup fallback := by
      generalize e.children = children, e'.children = children' at hchildren
      cases hchildren with
      | none => rfl
      | some hchild => exact hchild
    change e.outline.markup fallback = e'.outline.markup fallback
    cases hvalid : isValidName e.tag with
    | false => rw [e.outline_invalid hvalid, e'.outline_invalid (hhead.tag ▸ hvalid)]
    | true =>
      rw [e.outline_eq hvalid, e'.outline_eq (hhead.tag ▸ hvalid)]
      simp only [Outline.markup, hhead.dryTag_eq, bodyText, hhead.tag]
      cases isVoid e'.tag with
      | true => rfl
      | false => simp only [Bool.false_eq_true, if_false, Outline.markup_append,
          hhead.text.outline_eq, hcontent]

private theorem AttrValue.Alike.isHandler_eq {value value' : AttrValue F} (h : value.Alike value') :
    value.isHandler = value'.isHandler := by
  cases value <;> cases value' <;> first | rfl | exact h.elim

private theorem AttributesAlike.any_isHandler_eq
    {attributes attributes' : List (String × AttrValue F)}
    (h : AttributesAlike attributes attributes') :
    (attributes.any fun (_, value) => value.isHandler) =
      attributes'.any fun (_, value) => value.isHandler := by
  have hall := h.forall₂
  clear h
  induction hall with
  | nil => rfl
  | cons hxy _ ih => simp only [List.any_cons, hxy.2.isHandler_eq, ih]

private theorem AttributesAlike.length_eq {attributes attributes' : List (String × AttrValue F)}
    (h : AttributesAlike attributes attributes') : attributes.length = attributes'.length :=
  h.forall₂.length_eq

theorem DirectivesAlike.isSome_eq {d d' : Option (Directive F)} (h : DirectivesAlike d d') :
    d.isSome = d'.isSome :=
  h.cases (P := fun d d' => d.isSome = d'.isSome) rfl (fun _ => rfl) fun _ _ => rfl

private theorem DirectivesAlike.any_isComputed_eq {d d' : Option (Directive F)}
    (h : DirectivesAlike d d') :
    d.any Directive.isComputed = d'.any Directive.isComputed :=
  h.cases (P := fun d d' => d.any Directive.isComputed = d'.any Directive.isComputed) rfl
    (fun _ => rfl) fun _ _ => rfl

private theorem HeadsAlike.ownFunction_eq {e e' : Element F N} (h : HeadsAlike e e') :
    e.ownFunction = e'.ownFunction := by
  rw [Element.ownFunction, Element.ownFunction, h.text.any_isComputed_eq,
    h.attributes.any_isHandler_eq]

private theorem HeadsAlike.size_eq {e e' : Element F N} (h : HeadsAlike e e')
    (hchildren : e.children.isSome = e'.children.isSome) : e.size = e'.size := by
  rw [Element.size, Element.size, h.attributes.length_eq, h.text.isSome_eq, hchildren]

theorem Element.containsFunction_eq_own (e : Element F (Node F)) :
    e.containsFunction = (e.ownFunction || e.children.any Node.containsFunction) := by
  obtain ⟨tag, attributes, directive, children, h⟩ := e
  cases children with
  | none => exact (Bool.or_false _).symm
  | some child => rfl

theorem Node.addComplexity_element (e : Element F (Node F)) (total limit : Nat) :
    (Node.element e).addComplexity total limit =
      if limit < total then total else total + e.complexity (limit - total) := by
  obtain ⟨tag, attributes, directive, children, h⟩ := e
  cases children <;> rfl

private theorem HeadsAlike.complexity_eq {e e' : Element F (Node F)} (h : HeadsAlike e e')
    (hchildren : Option.Rel
      (fun n n' => ∀ total limit, n.addComplexity total limit = n'.addComplexity total limit)
      e.children e'.children) (limit : Nat) : e.complexity limit = e'.complexity limit := by
  have hsome : e.children.isSome = e'.children.isSome := by
    generalize e.children = children, e'.children = children' at hchildren
    cases hchildren <;> rfl
  unfold Element.complexity
  rw [h.size_eq hsome]
  generalize e.children = children, e'.children = children' at hchildren
  cases hchildren with
  | none => rfl
  | some hchild => exact hchild _ _

theorem Node.Alike.containsFunction_eq {n n' : Node F} (h : n.Alike n') :
    n.containsFunction = n'.containsFunction := by
  apply Node.Alike.inductOn (P := fun n n' => n.containsFunction = n'.containsFunction) h
  case empty => rfl
  case text =>
    intro value value' _
    rfl
  case component =>
    intro c c'
    rfl
  case collection =>
    intro nodes nodes' members
    simp only [Node.containsFunction]
    induction members with
    | nil => rfl
    | cons hn _ ih => rw [Node.anyContainsFunction, Node.anyContainsFunction, hn, ih]
  case element =>
    intro e e' halike hchildren
    have hhead := (Node.alike_element.1 halike).1
    change e.containsFunction = e'.containsFunction
    rw [e.containsFunction_eq_own, e'.containsFunction_eq_own, hhead.ownFunction_eq]
    generalize e.children = children, e'.children = children' at hchildren
    cases hchildren with
    | none => rfl
    | some hchild => rw [Option.any_some, Option.any_some, hchild]

private theorem Node.Alike.addComplexity_eq {n n' : Node F} (h : n.Alike n') (total limit : Nat) :
    n.addComplexity total limit = n'.addComplexity total limit := by
  apply Node.Alike.inductOn (P := fun n n' =>
    ∀ total limit, n.addComplexity total limit = n'.addComplexity total limit) h
  case empty =>
    intro total limit
    rfl
  case text =>
    intro value value' _ total limit
    rfl
  case component =>
    intro c c' total limit
    rfl
  case collection =>
    intro nodes nodes' members total limit
    have counted (total : Nat) : Node.addComplexities nodes total limit =
        Node.addComplexities nodes' total limit := by
      induction members generalizing total with
      | nil => rfl
      | cons hn _ ih => rw [Node.addComplexities, Node.addComplexities, hn, ih]
    simp only [Node.addComplexity, counted]
  case element =>
    intro e e' halike hchildren total limit
    have hhead := (Node.alike_element.1 halike).1
    rw [Node.addComplexity_element, Node.addComplexity_element, hhead.complexity_eq hchildren]

theorem Element.complexity_eq_of_alike {e e' : Element F (Node F)}
    (h : (Node.element e).Alike (.element e')) (limit : Nat) :
    e.complexity limit = e'.complexity limit := by
  obtain ⟨hhead, hchildren⟩ := Node.alike_element.1 h
  refine hhead.complexity_eq ?_ limit
  generalize e.children = children, e'.children = children' at hchildren
  cases hchildren with
  | none => exact .none
  | some hchild => exact .some hchild.addComplexity_eq

theorem Config.isCacheable_eq_of_alike (config : Config) {e e' : Element F (Node F)}
    (h : (Node.element e).Alike (.element e')) : config.isCacheable e = config.isCacheable e' := by
  have hfunction : e.containsFunction = e'.containsFunction := h.containsFunction_eq
  rw [isCacheable, isCacheable, hfunction, Element.complexity_eq_of_alike h]

end TreeRender
