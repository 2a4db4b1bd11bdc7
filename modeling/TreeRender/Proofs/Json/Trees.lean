import TreeRender.Node.OfJson
import TreeRender.Proofs.Json.Distinct
import TreeRender.Proofs.Outline.Twin

/-!
# Trees from JSON

A tree read from JSON has no functions, whatever the value is. What has no meaning as part of a tree
is left out on the way. Cleaning a value takes it out beforehand, or puts null in its place. The
trees read before and after have the same elements with the same text and the same children, and
attributes that come to the same; there may only be more attributes that come to nothing.
-/

namespace TreeRender

variable {F : Type}

private theorem Element.containsFunction_eq_false {e : Element F (Node F)} :
    e.containsFunction = false ↔
      e.ownFunction = false ∧ ∀ n, e.children = some n → n.containsFunction = false := by
  obtain ⟨tag, attributes, directive, children, nodup⟩ := e
  cases children with
  | none => simp [containsFunction, Node.containsFunction]
  | some child => simp [containsFunction, Node.containsFunction, ownFunction]

namespace Node

private theorem isHandler_styleProp {value : Json} {prop : AttrValue F}
    (h : (styleProp value).value = some prop) : prop.isHandler = false := by
  cases value <;> cases h <;> rfl

private theorem isHandler_scalarProp {key : String} {value : Json} {prop : AttrValue F}
    (h : (scalarProp key value).value = some prop) : prop.isHandler = false := by
  cases value <;> cases h <;> rfl

def propOfJson (key : String) (value : Json) : Option (AttrValue F) :=
  (if key = "style" then styleProp value else scalarProp key value).value

private theorem isHandler_propOfJson {key : String} {value : Json} {prop : AttrValue F}
    (h : propOfJson key value = some prop) : prop.isHandler = false := by
  unfold propOfJson at h
  split at h
  · exact isHandler_styleProp h
  · exact isHandler_scalarProp h

section

variable (e : Element F (Node F)) (value : Json) (children : Logged (Node F))

private theorem value_addProp_children :
    (addProp e "children" value children).value = e.withChild children.value := rfl

theorem value_addProp_text : (addProp e "text" value children).value =
    match (directiveOfJson value).value with
    | none => e
    | some directive => e.withText directive := by
  unfold addProp
  rw [if_neg (by decide), if_pos rfl]
  rfl

variable {key : String} (hchildren : key ≠ "children") (htext : key ≠ "text")

include hchildren htext in
theorem value_addProp : (addProp e key value children).value =
    match (propOfJson key value : Option (AttrValue F)) with
    | none => e
    | some prop => e.attr key prop := by
  unfold addProp propOfJson
  rw [if_neg hchildren, if_neg htext]
  by_cases hstyle : key = "style"
  · simp only [if_pos hstyle]
    rfl
  · simp only [if_neg hstyle]
    rfl

end

private theorem functionFree_addProp {e : Element F (Node F)} (he : e.containsFunction = false)
    (key : String) (value : Json) {children : Logged (Node F)}
    (hchildren : children.value.containsFunction = false) :
    (addProp e key value children).value.containsFunction = false := by
  rw [Element.containsFunction_eq_false] at he ⊢
  obtain ⟨hown, hbelow⟩ := he
  by_cases hkey : key = "children"
  · subst hkey
    rw [value_addProp_children]
    refine ⟨hown, fun n hn => ?_⟩
    cases hn
    exact hchildren
  · by_cases htext : key = "text"
    · subst htext
      rw [value_addProp_text]
      cases (directiveOfJson value).value with
      | none => exact ⟨hown, hbelow⟩
      | some directive =>
        refine ⟨?_, hbelow⟩
        rw [Element.ownFunction, Bool.or_eq_false_iff] at hown ⊢
        exact ⟨rfl, hown.2⟩
    · rw [value_addProp e value children hkey htext]
      cases hprop : (propOfJson key value : Option (AttrValue F)) with
      | none => exact ⟨hown, hbelow⟩
      | some prop =>
        refine ⟨?_, hbelow⟩
        rw [Element.ownFunction, Bool.or_eq_false_iff] at hown ⊢
        exact ⟨hown.1, any_setKey (isHandler_propOfJson hprop) hown.2⟩

mutual

/-- A tree read from JSON has no functions. -/
theorem functionFree_ofJson :
    ∀ v : Json, (ofJson v : Logged (Node F)).value.containsFunction = false
  | .null => rfl
  | .bool _ => rfl
  | .number _ => rfl
  | .string _ => rfl
  | .array items => functionFree_ofItems items
  | .object [] => rfl
  | .object ((_, .null) :: _) => rfl
  | .object ((_, .object props) :: _) => functionFree_ofProps props rfl
  | .object ((_, .bool _) :: _) => rfl
  | .object ((_, .number _) :: _) => rfl
  | .object ((_, .string _) :: _) => rfl
  | .object ((_, .array _) :: _) => rfl

theorem functionFree_ofItems : ∀ items : List Json,
    Node.anyContainsFunction (ofItems items : Logged (List (Node F))).value = false
  | [] => rfl
  | item :: rest => Bool.or_eq_false_iff.2 ⟨functionFree_ofJson item, functionFree_ofItems rest⟩

theorem functionFree_ofProps : ∀ (props : List (String × Json)) {e : Element F (Node F)},
    e.containsFunction = false → (ofProps props e).value.containsFunction = false
  | [], _, he => he
  | (key, value) :: rest, _, he =>
    functionFree_ofProps rest (functionFree_addProp he key value (functionFree_ofJson value))

end

end Node

namespace Json

def scalarOrNull : Json → Json
  | .array _ => .null
  | .object _ => .null
  | value => value

def isStyleValue : Json → Bool
  | .string _ => true
  | .number _ => true
  | _ => false

/-- Null in place of what is no style, and a style without the entries that cannot be used. -/
def cleanedStyle : Json → Json
  | .object declarations => .object (declarations.filter fun (_, value) => value.isStyleValue)
  | .string s => .string s
  | _ => .null

/-- The cleaned value of a prop, given what it is as a cleaned node. -/
def cleanedProp (key : String) (value node : Json) : Json :=
  if key = "children" then node
  else if key = "style" then value.cleanedStyle
  else value.scalarOrNull

mutual

/-- A node without the keys after its tag, and with null in place of what is no node. -/
def cleaned : Json → Json
  | .array items => .array (cleanedItems items)
  | .object [] => .null
  | .object ((tag, .null) :: _) => .object [(tag, .null)]
  | .object ((tag, .object props) :: _) => .object [(tag, .object (cleanedProps props))]
  | .object (_ :: _) => .null
  | value => value

def cleanedItems : List Json → List Json
  | [] => []
  | item :: rest => item.cleaned :: cleanedItems rest

def cleanedProps : List (String × Json) → List (String × Json)
  | [] => []
  | (key, value) :: rest => (key, cleanedProp key value value.cleaned) :: cleanedProps rest

end

end Json

namespace Node

private theorem value_directiveOfJson_cleaned (value : Json) :
    (directiveOfJson value.scalarOrNull).value = (directiveOfJson value).value := by
  cases value <;> rfl

private theorem value_styleOfJson_filter (declarations : List (String × Json)) :
    (styleOfJson (declarations.filter fun (_, value) => value.isStyleValue)).value =
      (styleOfJson declarations).value := by
  induction declarations with
  | nil => rfl
  | cons declaration rest ih =>
    obtain ⟨property, value⟩ := declaration
    cases value with
    | string text => exact congrArg ((property, text) :: ·) ih
    | number x => exact congrArg ((property, Decimal.text x.toFloat) :: ·) ih
    | _ => exact ih

def attributeOfJson (key : String) (value : Json) : Option (Attribute F) :=
  (propOfJson key value).bind (Attribute.ofValue? key)

private theorem attributeOfJson_cleaned {key : String} (hchildren : key ≠ "children")
    (value node : Json) :
    (attributeOfJson key (value.cleanedProp key node) : Option (Attribute F)) =
      attributeOfJson key value := by
  unfold attributeOfJson propOfJson Json.cleanedProp
  rw [if_neg hchildren]
  by_cases hstyle : key = "style"
  · simp only [if_pos hstyle]
    cases value with
    | object declarations =>
      have hstyles := value_styleOfJson_filter declarations
      simp only [Json.cleanedStyle, styleProp, Logged.value_bind, Logged.value_pure, hstyles]
    | _ => rfl
  · simp only [if_neg hstyle]
    cases value <;> rfl

private theorem mapped_addProp {e : Element F (Node F)} {key : String}
    (hchildren : key ≠ "children")
    (htext : key ≠ "text") (hfresh : key ∉ e.attributes.map Prod.fst) (value : Json)
    (children : Logged (Node F)) : (addProp e key value children).value.mapped =
      e.mapped ++ (attributeOfJson key value).toList := by
  rw [value_addProp e value children hchildren htext, attributeOfJson]
  cases propOfJson key value with
  | none => exact (List.append_nil _).symm
  | some prop =>
    simp only [Element.mapped, Element.attr, setKey_of_notMem hfresh, List.filterMap_append]
    cases hvalue : Attribute.ofValue? key prop <;> simp [hvalue]

private theorem mem_keys_addProp {e : Element F (Node F)} {key k : String} {value : Json}
    {children : Logged (Node F)}
    (h : k ∈ (addProp e key value children).value.attributes.map Prod.fst) :
    k = key ∨ k ∈ e.attributes.map Prod.fst := by
  by_cases hchildren : key = "children"
  · subst hchildren
    exact .inr h
  · by_cases htext : key = "text"
    · subst htext
      rw [value_addProp_text] at h
      cases hdirective : (directiveOfJson value).value <;> rw [hdirective] at h <;> exact .inr h
    · rw [value_addProp e value children hchildren htext] at h
      cases hprop : (propOfJson key value : Option (AttrValue F)) with
      | none =>
        rw [hprop] at h
        exact .inr h
      | some prop =>
        rw [hprop] at h
        exact mem_keys_setKey h

private theorem twin_addProp {e e' : Element F (Node F)} (h : e.Twin e') {key : String}
    (hfresh : key ∉ e.attributes.map Prod.fst) (hfresh' : key ∉ e'.attributes.map Prod.fst)
    (value : Json)
    (htwin : (ofJson value : Logged (Node F)).value.Twin (ofJson value.cleaned).value) :
    (addProp e key value (ofJson value)).value.Twin
      (addProp e' key (value.cleanedProp key value.cleaned)
        (ofJson (value.cleanedProp key value.cleaned))).value := by
  by_cases hchildren : key = "children"
  · subst hchildren
    exact ⟨h.tag, h.mapped, h.text, .some htwin⟩
  · by_cases htext : key = "text"
    · subst htext
      have hscalar : value.cleanedProp "text" value.cleaned = value.scalarOrNull := rfl
      rw [value_addProp_text, value_addProp_text, hscalar, value_directiveOfJson_cleaned]
      cases (directiveOfJson value).value with
      | none => exact h
      | some directive => exact ⟨h.tag, h.mapped, rfl, h.children⟩
    · have hmapped := mapped_addProp hchildren htext hfresh value (ofJson value)
      have hmapped' := mapped_addProp hchildren htext hfresh'
        (value.cleanedProp key value.cleaned) (ofJson (value.cleanedProp key value.cleaned))
      rw [attributeOfJson_cleaned hchildren, h.mapped, ← hmapped] at hmapped'
      have others {d : Element F (Node F)} (v : Json) (c : Logged (Node F)) :
          (addProp d key v c).value.tag = d.tag ∧ (addProp d key v c).value.text = d.text ∧
            (addProp d key v c).value.children = d.children := by
        rw [value_addProp d v c hchildren htext]
        cases (propOfJson key v : Option (AttrValue F)) <;> exact ⟨rfl, rfl, rfl⟩
      refine ⟨?_, hmapped', ?_, ?_⟩
      · rw [(others _ _).1, (others _ _).1, h.tag]
      · rw [(others _ _).2.1, (others _ _).2.1, h.text]
      · rw [(others _ _).2.2, (others _ _).2.2]
        exact h.children

mutual

theorem twin_ofJson : ∀ v : Json, v.DistinctKeys →
    (ofJson v : Logged (Node F)).value.Twin (ofJson v.cleaned).value
  | .null, _ => .refl _
  | .bool _, _ => .refl _
  | .number _, _ => .refl _
  | .string _, _ => .refl _
  | .array items, h => .collection (twin_ofItems items h)
  | .object [], _ => .refl _
  | .object ((_, .null) :: _), _ => .refl _
  | .object ((tag, .object props) :: _), h => by
    have bare : (Element.new tag : Element F (Node F)).Twin (Element.new tag) :=
      ⟨rfl, rfl, rfl, .none⟩
    exact .element (twin_ofProps props h.2.1.2 h.2.1.1 bare fun _ _ => ⟨nofun, nofun⟩)
  | .object ((_, .bool _) :: _), _ => .refl _
  | .object ((_, .number _) :: _), _ => .refl _
  | .object ((_, .string _) :: _), _ => .refl _
  | .object ((_, .array _) :: _), _ => .refl _

theorem twin_ofItems : ∀ items : List Json, Json.AllDistinct items →
    List.Forall₂ Node.Twin (ofItems items : Logged (List (Node F))).value
      (ofItems (Json.cleanedItems items)).value
  | [], _ => .nil
  | item :: rest, h => .cons (twin_ofJson item h.1) (twin_ofItems rest h.2)

theorem twin_ofProps : ∀ (props : List (String × Json)), Json.MembersDistinct props →
    (props.map Prod.fst).Nodup → ∀ {e e' : Element F (Node F)}, e.Twin e' →
    (∀ key ∈ props.map Prod.fst, key ∉ e.attributes.map Prod.fst ∧
      key ∉ e'.attributes.map Prod.fst) →
    (ofProps props e).value.Twin (ofProps (Json.cleanedProps props) e').value
  | [], _, _, _, _, h, _ => h
  | (key, value) :: rest, hdistinct, hkeys, _, _, h, hfresh => by
    obtain ⟨hkey, hrest⟩ := List.nodup_cons.1 hkeys
    obtain ⟨hnew, hnew'⟩ := hfresh key (List.mem_cons_self ..)
    refine twin_ofProps rest hdistinct.2 hrest
      (twin_addProp h hnew hnew' value (twin_ofJson value hdistinct.1)) fun k hk => ?_
    -- The keys are distinct, so none of the other props takes the place of this one.
    obtain ⟨hold, hold'⟩ := hfresh k (List.mem_cons_of_mem _ hk)
    refine ⟨fun hmem => ?_, fun hmem => ?_⟩
    · rcases mem_keys_addProp hmem with rfl | hmem
      · exact hkey hk
      · exact hold hmem
    · rcases mem_keys_addProp hmem with rfl | hmem
      · exact hkey hk
      · exact hold' hmem

end

end Node

end TreeRender
