import TreeRender.Dom.Renderer
import TreeRender.Markup.Stream
import TreeRender.Proofs.Signature.Injective
import TreeRender.Proofs.Stream.Drain
import TreeRender.Proofs.Walk.Traversal

/-!
# Walks over trees that are alike

Trees without functions that are alike differ only in numbers and scalars of the same text. No
backend sees more than the text, and neither do the signature, the height and the other queries that
the walk makes. So the walks over two such trees are one and the same, and so are the plans of their
streams: they do the same, step by step, and report the same.
-/

namespace TreeRender

open Markup

variable {F H N σ β U : Type}

private theorem AttrValue.Alike.ofValue?_eq {value value' : AttrValue F} (h : value.Alike value')
    (hplain : value.isHandler = false) (key : String) :
    Attribute.ofValue? key value = Attribute.ofValue? key value' := by
  cases value <;> cases value' <;> try exact h.elim
  case null => rfl
  case str => rw [show _ = _ from h]
  case number =>
    exact congrArg (fun text => some (Attribute.value (attributeName key) text)) h
  case bool => rw [show _ = _ from h]
  case style => rw [show _ = _ from h]
  case handler => cases hplain

private theorem HeadsAlike.mapped_eq {e e' : Element F N} (h : HeadsAlike e e')
    (hplain : e.attributes.any (fun (_, value) => value.isHandler) = false) :
    e.mapped = e'.mapped := by
  have hall := h.attributes.forall₂
  unfold Element.mapped
  generalize e.attributes = attributes, e'.attributes = attributes' at hall hplain
  induction hall with
  | nil => rfl
  | cons hxy _ ih =>
    rw [List.any_cons, Bool.or_eq_false_iff] at hplain
    simp only [List.filterMap_cons, ← hxy.1, hxy.2.ofValue?_eq hplain.1, ih hplain.2]

private theorem DirectivesAlike.eq {d d' : Option (Directive F)} (h : DirectivesAlike d d')
    (hplain : d.any Directive.isComputed = false) : d = d' :=
  h.cases (P := fun d d' => d.any Directive.isComputed = false → d = d') (fun _ => rfl)
    (fun _ _ => rfl) (fun _ _ hcomputed => nomatch hcomputed) hplain

private theorem Node.Alike.asChildren {n n' : Node F} (h : n.Alike n') :
    List.Forall₂ Node.Alike n.asChildren n'.asChildren := by
  apply Node.Alike.inductOn
    (P := fun n n' => n.Alike n' → List.Forall₂ Node.Alike n.asChildren n'.asChildren) h
  case empty => exact fun halike => .cons halike .nil
  case text => exact fun _ _ _ halike => .cons halike .nil
  case component => exact fun _ _ halike => .cons halike .nil
  case collection => exact fun _ _ _ halike => Node.allAlike_iff.1 halike
  case element => exact fun _ _ _ _ halike => .cons halike .nil
  case a => exact h

private theorem Element.childNodes_alike {e e' : Element F (Node F)}
    (h : (Node.element e).Alike (.element e')) :
    List.Forall₂ Node.Alike e.childNodes e'.childNodes := by
  have hchildren := (Node.alike_element.1 h).2
  generalize hc : e.children = children at hchildren
  generalize hc' : e'.children = children' at hchildren
  cases hchildren with
  | none =>
    rw [e.childNodes_none hc, e'.childNodes_none hc']
    exact .nil
  | some hchild =>
    rw [e.childNodes_some hc, e'.childNodes_some hc']
    exact hchild.asChildren

private theorem Node.Alike.isEmpty_eq {n n' : Node F} (h : n.Alike n') : n.isEmpty = n'.isEmpty
    := by
  apply Node.Alike.inductOn (P := fun n n' => n.isEmpty = n'.isEmpty) h
  case empty => rfl
  case text =>
    intro value value' _
    rfl
  case component =>
    intro c c'
    rfl
  case collection =>
    intro nodes nodes' members
    simp only [Node.isEmpty]
    induction members with
    | nil => rfl
    | cons hn _ ih => rw [Node.allEmpty, Node.allEmpty, hn, ih]
  case element =>
    intro e e' _ _
    rfl

private theorem Element.hasContent_eq_of_alike {e e' : Element F (Node F)}
    (h : (Node.element e).Alike (.element e')) : e.hasContent = e'.hasContent := by
  obtain ⟨hhead, hchildren⟩ := Node.alike_element.1 h
  unfold Element.hasContent
  rw [hhead.text.isSome_eq]
  generalize e.children = children, e'.children = children' at hchildren
  cases hchildren with
  | none => rfl
  | some hchild => simp only [hchild.isEmpty_eq]

private theorem HeadsAlike.isEntered_eq {e e' : Element F N} (h : HeadsAlike e e') :
    e.isEntered = e'.isEntered := by
  rw [Element.isEntered, Element.isEntered, h.tag]

theorem Node.Alike.heights_eq {n n' : Node F} (h : n.Alike n') :
    n.height = n'.height ∧ Node.maxHeight n.asChildren = Node.maxHeight n'.asChildren := by
  apply Node.Alike.inductOn (P := fun n n' =>
    n.height = n'.height ∧ Node.maxHeight n.asChildren = Node.maxHeight n'.asChildren) h
  case empty => exact ⟨rfl, rfl⟩
  case text =>
    intro value value' _
    exact ⟨rfl, rfl⟩
  case component =>
    intro c c'
    exact ⟨rfl, rfl⟩
  case collection =>
    intro nodes nodes' members
    have hmax : Node.maxHeight nodes = Node.maxHeight nodes' := by
      induction members with
      | nil => rfl
      | cons hn _ ih => rw [Node.maxHeight, Node.maxHeight, hn.1, ih]
    exact ⟨congrArg (max 1) hmax, hmax⟩
  case element =>
    intro e e' halike hchildren
    have hmax : Node.maxHeight e.childNodes = Node.maxHeight e'.childNodes := by
      generalize hc : e.children = children at hchildren
      generalize hc' : e'.children = children' at hchildren
      cases hchildren with
      | none => rw [e.childNodes_none hc, e'.childNodes_none hc']
      | some hchild => rw [e.childNodes_some hc, e'.childNodes_some hc', hchild.2]
    have hheight : e.height = e'.height := by
      rw [e.height_eq, e'.height_eq, hmax, (Node.alike_element.1 halike).1.isEntered_eq]
    exact ⟨hheight, congrArg (max · 0) hheight⟩

/-- A backend that sees of an element only its tag and what its attributes come to. -/
structure Backend.SeesMapped (backend : Backend F β U) : Prop where
  enter : ∀ {e e'}, e.tag = e'.tag → e.mapped = e'.mapped → backend.enter e = backend.enter e'
  element : ∀ {e e'} content, e.tag = e'.tag → e.mapped = e'.mapped →
    backend.element e content = backend.element e' content

theorem forall₂_of_functionFree {P : Node F → Node F → Prop} {nodes nodes' : List (Node F)}
    (h : List.Forall₂ (fun n n' => n.containsFunction = false → P n n') nodes nodes')
    (hfree : Node.anyContainsFunction nodes = false) : List.Forall₂ P nodes nodes' := by
  induction h with
  | nil => exact .nil
  | cons hn _ ih =>
    rw [Node.anyContainsFunction, Bool.or_eq_false_iff] at hfree
    exact .cons (hn hfree.1) (ih hfree.2)

/-- Elements without functions that are alike, as a walk finds them. -/
structure Element.Same (e e' : Element F (Node F)) : Prop where
  tag : e.tag = e'.tag
  mapped : e.mapped = e'.mapped
  text : e.text = e'.text
  content : e.hasContent = e'.hasContent
  height : e.height = e'.height
  signature : e.signature = e'.signature
  cacheable : ∀ config : Config, config.isCacheable e = config.isCacheable e'
  children : List.Forall₂ (fun n n' => n.Alike n' ∧ n.containsFunction = false)
    e.childNodes e'.childNodes

private theorem Element.same_of_alike {e e' : Element F (Node F)}
    (h : (Node.element e).Alike (.element e')) (hfree : e.containsFunction = false) :
    e.Same e' := by
  have hhead := (Node.alike_element.1 h).1
  rw [e.containsFunction_eq, Bool.or_eq_false_iff] at hfree
  obtain ⟨hown, hchildren⟩ := hfree
  rw [Element.ownFunction, Bool.or_eq_false_iff] at hown
  refine ⟨hhead.tag, hhead.mapped_eq hown.2, hhead.text.eq hown.1, hasContent_eq_of_alike h,
    h.heights_eq.1, signature_eq_of_alike h, fun config => config.isCacheable_eq_of_alike h, ?_⟩
  exact forall₂_of_functionFree ((childNodes_alike h).imp fun n n' hn hfree => ⟨hn, hfree⟩) hchildren

section

variable {program : Program F σ} {config : Config} {backend : Backend F β U}
  (hbackend : backend.SeesMapped)

private theorem walkEach_congr {below : Node F → Walk σ β U} {nodes nodes' : List (Node F)}
    (h : List.Forall₂ (fun n n' => below n = below n') nodes nodes') :
    walkEach below nodes = walkEach below nodes' := by
  induction h with
  | nil => rfl
  | cons hn _ ih => rw [walkEach, walkEach, hn, ih]

private theorem reportContent_congr {e e' : Element F (Node F)} (htag : e.tag = e'.tag)
    (hcontent : e.hasContent = e'.hasContent) : reportContent e = reportContent e' := by
  rw [reportContent, reportContent, htag, hcontent]

include hbackend

private theorem walkElement_same {below : Node F → Walk σ β U} {depth : Nat}
    {e e' : Element F (Node F)}
    (h : e.Same e')
    (hbelow : ∀ n n', n.Alike n' → n.containsFunction = false → below n = below n') :
    walkElement program config backend below depth e =
      walkElement program config backend below depth e' := by
  have hchildren : walkEach below e.childNodes = walkEach below e'.childNodes :=
    walkEach_congr (h.children.imp fun n n' hn => hbelow n n' hn.1 hn.2)
  have hmake : backend.element e = backend.element e' :=
    funext fun content => hbackend.element content h.tag h.mapped
  have hbuild : buildElement program config backend below e =
      buildElement program config backend below e' := by
    unfold buildElement
    rw [hbackend.enter h.tag h.mapped, hmake, h.tag, h.text, hchildren,
      reportContent_congr h.tag h.content]
  have hcached : cachedUnit config backend depth e = (cachedUnit config backend depth e' :
      Walk σ β (Option U)) := by
    unfold cachedUnit
    rw [h.height, h.signature]
  have hstore (unit : U) : storeUnit backend e unit = (storeUnit backend e' unit :
      Walk σ β Unit) := by
    unfold storeUnit
    rw [h.signature]
  unfold walkElement
  simp only [h.tag, h.cacheable config, hbuild, hcached, hstore]

private theorem walkLevel_alike {resolve : Node F → Calls σ (Node F)} {below : Node F → Walk σ β U}
    {depth : Nat} (hbelow : ∀ n n', n.Alike n' → n.containsFunction = false → below n = below n')
    {n n' : Node F} (h : n.Alike n') (hfree : n.containsFunction = false) :
    walkLevel program config backend resolve below depth n =
      walkLevel program config backend resolve below depth n' := by
  apply Node.Alike.inductOn (P := fun n n' => n.containsFunction = false →
    walkLevel program config backend resolve below depth n =
      walkLevel program config backend resolve below depth n') h
  case empty =>
    intro _
    rfl
  case text =>
    intro value value' hvalue _
    rw [walkLevel, walkLevel, hvalue]
  case component =>
    intro c c' hcomponent
    cases hcomponent
  case collection =>
    intro nodes nodes' members hmembers
    rw [walkLevel, walkLevel, walkMembers_eq, walkMembers_eq,
      walkEach_congr (forall₂_of_functionFree members hmembers)]
  case element =>
    intro e e' halike _ hfree
    exact walkElement_same hbackend (Element.same_of_alike halike hfree) hbelow
  case a => exact hfree

theorem walkFrom_alike (levels depth : Nat) {n n' : Node F} (h : n.Alike n')
    (hfree : n.containsFunction = false) :
    walkFrom program config backend levels depth n =
      walkFrom program config backend levels depth n' := by
  induction levels generalizing depth n n' with
  | zero => rfl
  | succ levels ih =>
    exact walkLevel_alike hbackend (fun n n' halike hfree => ih (depth + 1) halike hfree) h hfree

end

namespace Markup

theorem backend_seesMapped (hydrate : Bool) :
    (backend hydrate : Backend F (Registry F) String).SeesMapped where
  enter _ _ := rfl
  element {e e'} content htag hmapped := by
    change elementText hydrate e content = elementText hydrate e' content
    unfold elementText openTag
    rw [htag, hmapped]

variable {program : Program F σ} {config : Config}

private theorem pieceOf_alike (levels depth : Nat) {n n' : Node F} (h : n.Alike n')
    (hfree : n.containsFunction = false) :
    pieceOf program config levels depth n = pieceOf program config levels depth n' :=
  walkFrom_alike (backend_seesMapped _) levels depth h hfree

private theorem opening_same {e e' : Element F (Node F)} (h : e.Same e') :
    opening program config e = opening program config e' := by
  unfold opening openTag
  rw [h.tag, h.mapped, h.text, reportContent_congr h.tag h.content]

private theorem planEach_congr {below : Node F → Plan F σ → Plan F σ} {nodes nodes' : List (Node F)}
    (h : List.Forall₂ (fun n n' => ∀ rest, below n rest = below n' rest) nodes nodes')
    (rest : Plan F σ) : planEach below nodes rest = planEach below nodes' rest := by
  induction h with
  | nil => rfl
  | cons hn _ ih => rw [planEach, planEach, hn, ih]

private theorem planElement_alike {below : Node F → Plan F σ → Plan F σ} {levels depth : Nat}
    {e e' : Element F (Node F)} (h : (Node.element e).Alike (.element e'))
    (hfree : e.containsFunction = false)
    (hbelow : ∀ n n', n.Alike n' → n.containsFunction = false →
      ∀ rest, below n rest = below n' rest) (rest : Plan F σ) :
    planElement program config below levels depth e rest =
      planElement program config below levels depth e' rest := by
  have hsame := Element.same_of_alike h hfree
  have hpiece : pieceOf program config levels depth (.element e) =
      pieceOf program config levels depth (.element e') := pieceOf_alike levels depth h hfree
  have hchildren (rest : Plan F σ) :
      planEach below e.childNodes rest = planEach below e'.childNodes rest :=
    planEach_congr (hsame.children.imp fun n n' hn => hbelow n n' hn.1 hn.2) rest
  unfold planElement
  rw [hsame.cacheable config, hpiece, hsame.tag, opening_same hsame, hchildren]

private theorem planLevel_alike {below : Node F → Plan F σ → Plan F σ} {levels depth : Nat}
    (hbelow : ∀ n n', n.Alike n' → n.containsFunction = false →
      ∀ rest, below n rest = below n' rest) {n n' : Node F} (h : n.Alike n')
    (hfree : n.containsFunction = false) (rest : Plan F σ) :
    planLevel program config below levels depth n rest =
      planLevel program config below levels depth n' rest := by
  apply Node.Alike.inductOn (P := fun n n' => n.containsFunction = false → ∀ rest,
    planLevel program config below levels depth n rest =
      planLevel program config below levels depth n' rest) h
  case empty =>
    intro _ rest
    rfl
  case text =>
    intro value value' hvalue _ rest
    rw [planLevel, planLevel, hvalue]
  case component =>
    intro c c' hcomponent
    cases hcomponent
  case collection =>
    intro nodes nodes' members hmembers rest
    rw [planLevel, planLevel, planMembers_eq, planMembers_eq]
    exact planEach_congr (forall₂_of_functionFree members hmembers) rest
  case element =>
    intro e e' halike _ hfree rest
    exact planElement_alike halike hfree hbelow rest
  case a => exact hfree

theorem planFrom_alike (levels depth : Nat) {n n' : Node F} (h : n.Alike n')
    (hfree : n.containsFunction = false) (rest : Plan F σ) :
    planFrom program config levels depth n rest =
      planFrom program config levels depth n' rest := by
  induction levels generalizing depth n n' rest with
  | zero => rfl
  | succ levels ih =>
    exact planLevel_alike (fun n n' halike hfree rest => ih (depth + 1) halike hfree rest) h hfree
      rest

end Markup

end TreeRender
