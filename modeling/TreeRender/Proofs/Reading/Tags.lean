import Mathlib.Data.List.Nodup
import Mathlib.Data.List.Pairwise
import TreeRender.Proofs.Hydration.Parts
import TreeRender.Proofs.Reading.Document

/-!
# The attributes of an opening tag

An opening tag is written attribute by attribute: those that show something, and with hydration one
for each action. Names come from the keys of the props, the class has two keys and an event many, so
that distinct keys are no guarantee for distinct names. This module tells in which elements they
are.
-/

namespace TreeRender

open Markup Reading

variable {F N : Type}

namespace Attribute

def published? (hydrate : Bool) (a : Attribute F) : Option (Action F) :=
  if hydrate then a.action? else none

def tagName? (hydrate : Bool) (a : Attribute F) : Option String :=
  match a.published? hydrate with
  | none => a.stored?.map Prod.fst
  | some action => some ("data-action-" ++ action.event)

end Attribute

/-- The attributes of a tag, each with its value if it has one. The ids of actions are those from
`next` on. -/
def tagEntries (hydrate : Bool) : List (Attribute F) → (next : Nat) → List (String × Option String)
  | [], _ => []
  | a :: rest, next =>
    match a.published? hydrate with
    | none => a.stored?.toList ++ tagEntries hydrate rest next
    | some action => ("data-action-" ++ action.event, some (ActionId.text next)) ::
      tagEntries hydrate rest (next + 1)

private theorem names_tagEntries (hydrate : Bool) (attributes : List (Attribute F)) (next : Nat) :
    (tagEntries hydrate attributes next).map Prod.fst =
      attributes.filterMap (Attribute.tagName? hydrate) := by
  induction attributes generalizing next with
  | nil => rfl
  | cons a rest ih =>
    rw [tagEntries, List.filterMap_cons, Attribute.tagName?]
    cases a.published? hydrate with
    | none =>
      rw [List.map_append, ih]
      cases a.stored? <;> rfl
    | some action => exact congrArg (_ :: ·) (ih _)

private theorem escape_actionId (id : Nat) : escape (ActionId.text id) = ActionId.text id := by
  apply escape_eq_self
  intro c hc
  rw [ActionId.text, String.toList_ofList] at hc
  rcases List.mem_cons.1 hc with rfl | hc
  · decide
  · have hdigit := Nat.isDigit_of_mem_toDigits (b := 10) (by decide) (by decide) hc
    have differs (d : Char) (hd : d.isDigit = false) : c ≠ d := by
      rintro rfl
      rw [hdigit] at hd
      cases hd
    exact ⟨differs _ (by decide), differs _ (by decide), differs _ (by decide),
      differs _ (by decide), differs _ (by decide)⟩

private theorem tagAttribute_unpublished? {hydrate : Bool} {a : Attribute F}
    (h : a.published? hydrate = none) (r : Registry F) :
    tagAttribute hydrate a r = (attributeText a, r) := by
  cases hydrate with
  | false => exact tagAttribute_dry a r
  | true => exact Segment.tagAttribute_plain h r

private theorem tagAttribute_published? {hydrate : Bool} {a : Attribute F} {action : Action F}
    (h : a.published? hydrate = some action) (r : Registry F) :
    tagAttribute hydrate a r = ((Segment.action r.nextId action).text, r.gain [action]) := by
  cases hydrate with
  | false => cases h
  | true => exact Segment.tagAttribute_action h r

private theorem tagAttributes_entries (hydrate : Bool) (attributes : List (Attribute F))
    (r : Registry F) :
    (tagAttributes hydrate attributes r).1 =
      String.join ((tagEntries hydrate attributes r.nextId).map Dom.Document.attributeHtml) := by
  induction attributes generalizing r with
  | nil => rfl
  | cons a rest ih =>
    rw [tagAttributes, tagEntries]
    cases hpublished : a.published? hydrate with
    | none =>
      simp only [tagAttribute_unpublished? hpublished, ih, List.map_append, String.join_append,
        Attribute.attributeText_eq]
      cases a.stored? with
      | none => rfl
      | some entry =>
        have hsingle : String.join [Dom.Document.attributeHtml entry] =
            Dom.Document.attributeHtml entry := String.join_cons.trans String.append_empty
        exact congrArg (· ++ _) hsingle.symm
    | some action =>
      simp only [tagAttribute_published? hpublished, ih, List.map_cons, String.join_cons]
      rw [Dom.Document.attributeHtml, escape_actionId]
      rfl

/-- The opening tag of an element, where the ids of actions are those from `next` on. -/
def openingToken (hydrate : Bool) (e : Element F N) (next : Nat) : Token :=
  .opening e.tag.toList ((tagEntries hydrate e.mapped next).map Outline.rawAttribute)

theorem source_openingToken (hydrate : Bool) (e : Element F N) (r : Registry F) :
    (openingToken hydrate e r.nextId).source = (openText hydrate e r).1.toList := by
  have hparts : "<".toList = ['<'] ∧ ">".toList = ['>'] := by decide
  rw [openingToken, Token.source, Outline.source_attributes, openText, tagAttributes_entries]
  simp only [String.toList_append, hparts, List.cons_append, List.nil_append]

private theorem isValidName_action {a : Attribute F} {action : Action F}
    (h : a.action? = some action) :
    isValidName ("data-action-" ++ action.event) = true := by
  cases a with
  | listener event handler =>
    change (if isValidName event then some (⟨event, handler⟩ : Action F) else none) = _ at h
    split at h
    · rename_i hevent
      obtain rfl := Option.some.inj h
      have hlead : "data-action-".toList.all isNameChar = true := by decide
      simp only [isValidName, Bool.and_eq_true] at hevent ⊢
      refine ⟨?_, ?_⟩
      · rw [String.toList_append]
        rfl
      · rw [String.toList_append, List.all_append, hlead, hevent.2]
        rfl
    · cases h
  | _ => cases h

private theorem isValidName_tagEntries (hydrate : Bool) (attributes : List (Attribute F))
    (next : Nat) :
    ∀ entry ∈ tagEntries hydrate attributes next, isValidName entry.1 = true := by
  induction attributes generalizing next with
  | nil => exact fun _ h => nomatch h
  | cons a rest ih =>
    rw [tagEntries]
    cases hpublished : a.published? hydrate with
    | none =>
      intro entry hentry
      rcases List.mem_append.1 hentry with hentry | hentry
      · exact Outline.isValidName_stored (Option.mem_toList.1 hentry)
      · exact ih next entry hentry
    | some action =>
      have haction : a.action? = some action := by
        cases hydrate with
        | false => cases hpublished
        | true => exact hpublished
      exact List.forall_mem_cons.2 ⟨isValidName_action haction, ih (next + 1)⟩

private theorem isAttribute_tagEntries (hydrate : Bool) (attributes : List (Attribute F))
    (next : Nat) :
    ∀ a ∈ (tagEntries hydrate attributes next).map Outline.rawAttribute, IsAttribute a := by
  intro a ha
  obtain ⟨entry, hentry, rfl⟩ := List.mem_map.1 ha
  exact Outline.isAttribute_rawAttribute
    (isValidName_tagEntries hydrate attributes next entry hentry)

theorem inGrammar_openingToken {hydrate : Bool} {e : Element F N} (h : isValidName e.tag = true)
    (next : Nat) : (openingToken hydrate e next).InGrammar :=
  ⟨isName_of_isValidName h, isAttribute_tagEntries hydrate e.mapped next⟩

/-- The name of the attribute that stands for an entry of the props. -/
def writtenName? (hydrate : Bool) (entry : String × AttrValue F) : Option String :=
  (Attribute.ofValue? entry.1 entry.2).bind (Attribute.tagName? hydrate)

private theorem names_mapped (hydrate : Bool) (e : Element F N) (next : Nat) :
    (tagEntries hydrate e.mapped next).map Prod.fst =
      e.attributes.filterMap (writtenName? hydrate) := by
  rw [names_tagEntries, Element.mapped, List.filterMap_filterMap]
  rfl

private theorem writtenName?_cases {hydrate : Bool} {entry : String × AttrValue F} {name : String}
    (h : writtenName? hydrate entry = some name) :
    (hydrate = true ∧ ∃ action,
      (Attribute.ofValue? entry.1 entry.2).bind Attribute.action? = some action ∧
        name = "data-action-" ++ action.event) ∨
    (name = attributeName entry.1 ∧ (Attribute.ofValue? entry.1 entry.2).isSome) := by
  obtain ⟨a, ha, hname⟩ := Option.bind_eq_some_iff.1 h
  unfold Attribute.tagName? at hname
  split at hname
  · rename_i hpublished
    obtain ⟨stored, hstored, rfl⟩ := Option.map_eq_some_iff.1 hname
    right
    exact Attribute.stored?_ofValue? (Option.bind_eq_some_iff.2 ⟨a, ha, hstored⟩)
  · rename_i action hpublished
    obtain rfl := Option.some.inj hname
    left
    cases hydrate with
    | false => cases hpublished
    | true => exact ⟨rfl, action, Option.bind_eq_some_iff.2 ⟨a, ha, hpublished⟩, rfl⟩

private theorem attributeName_ne_action {key : String} (h : ¬"data-action-".toList <+: key.toList)
    (event : String) : attributeName key ≠ "data-action-" ++ event := by
  unfold attributeName
  split
  · intro heq
    have hlist := congrArg String.toList heq
    rw [String.toList_append] at hlist
    cases hlist
  · rintro rfl
    exact h (String.toList_append ▸ List.prefix_append _ _)

private theorem action_inj {event event' : String}
    (h : "data-action-" ++ event = "data-action-" ++ event') : event = event' := by
  have hlist := congrArg String.toList h
  rw [String.toList_append, String.toList_append] at hlist
  exact String.toList_inj.1 (List.append_cancel_left hlist)

private theorem writtenName?_of_action {entry : String × AttrValue F} {action : Action F}
    (h : (Attribute.ofValue? entry.1 entry.2).bind Attribute.action? = some action) :
    writtenName? true entry = some ("data-action-" ++ action.event) := by
  obtain ⟨a, ha, haction⟩ := Option.bind_eq_some_iff.1 h
  rw [writtenName?, ha, Option.bind_some, Attribute.tagName?, Attribute.published?, if_pos rfl,
    haction]

private theorem writtenName?_class {key : String} {value : AttrValue F}
    (hkey : key = "class" ∨ key = "className") (h : (Attribute.ofValue? key value).isSome)
    (hydrate : Bool) : writtenName? hydrate (key, value) = some "class" := by
  have hname : attributeName key = "class" := by rcases hkey with rfl | rfl <;> rfl
  have hevent : eventType? key = none := by rcases hkey with rfl | rfl <;> rfl
  have hvalid : isValidName "class" = true := by decide
  have hpresent : Attribute.tagName? hydrate (.present "class" : Attribute F) = some "class" := by
    cases hydrate <;> rfl
  have hvalue (text : String) :
      Attribute.tagName? hydrate (.value "class" text : Attribute F) = some "class" := by
    cases hydrate <;> rfl
  cases value with
  | null => cases h
  | bool b =>
    cases b with
    | false => cases h
    | true => rw [writtenName?, Attribute.ofValue?, hname, if_pos rfl, Option.bind_some, hpresent]
  | handler name =>
    rw [Attribute.ofValue?, hevent] at h
    cases h
  | str text | number x | style declarations =>
    rw [writtenName?, Attribute.ofValue?, hname, Option.bind_some, hvalue]

private theorem pairwise_events (e : Element F N) : (e.actions.map Action.event).Nodup ↔
    e.attributes.Pairwise fun x y =>
      ∀ a, (Attribute.ofValue? x.1 x.2).bind Attribute.action? = some a →
        ∀ b, (Attribute.ofValue? y.1 y.2).bind Attribute.action? = some b → a.event ≠ b.event := by
  rw [e.actions_eq, Element.mapped, List.filterMap_filterMap, List.Nodup, List.pairwise_map,
    List.pairwise_filterMap]

private theorem doublesClass_eq_false_of_nodup {hydrate : Bool} {e : Element F N}
    (hnames : (e.attributes.filterMap (writtenName? hydrate)).Nodup) : e.doublesClass = false := by
  rw [List.Nodup, List.pairwise_filterMap] at hnames
  by_contra hclass
  rw [Bool.not_eq_false, Element.doublesClass, Bool.and_eq_true] at hclass
  obtain ⟨x, hx, hxclass⟩ := List.any_eq_true.1 hclass.1
  obtain ⟨y, hy, hyclass⟩ := List.any_eq_true.1 hclass.2
  rw [Bool.and_eq_true, beq_iff_eq] at hxclass hyclass
  have hne : x ≠ y := by
    rintro rfl
    exact absurd (hxclass.1.symm.trans hyclass.1) (by decide)
  have : Std.Symm fun x y : String × AttrValue F =>
      ∀ name, writtenName? hydrate x = some name →
        ∀ name', writtenName? hydrate y = some name' → name ≠ name' :=
    ⟨fun x y h name hname name' hname' heq => h name' hname' name hname heq.symm⟩
  exact hnames.forall hx hy hne "class" (writtenName?_class (.inl hxclass.1) hxclass.2 _)
    "class" (writtenName?_class (.inr hyclass.1) hyclass.2 _) rfl

private theorem writtenName?_ne {hydrate : Bool} {e : Element F N}
    (hkeys : ∀ entry ∈ e.attributes, ¬"data-action-".toList <+: entry.1.toList)
    (hclass : e.doublesClass = false) {x y : String × AttrValue F} (hx : x ∈ e.attributes)
    (hy : y ∈ e.attributes) (hne : x.1 ≠ y.1)
    {name name' : String} (hname : writtenName? hydrate x = some name)
    (hname' : writtenName? hydrate y = some name')
    (hevent : hydrate = true → ∀ a, (Attribute.ofValue? x.1 x.2).bind Attribute.action? = some a →
      ∀ b, (Attribute.ofValue? y.1 y.2).bind Attribute.action? = some b → a.event ≠ b.event) :
    name ≠ name' := by
  rintro rfl
  rcases writtenName?_cases hname with ⟨hhydrate, a, ha, rfl⟩ | ⟨rfl, hsome⟩
  · rcases writtenName?_cases hname' with ⟨-, b, hb, hsame⟩ | ⟨hsame, -⟩
    · exact hevent hhydrate a ha b hb (action_inj hsame)
    · exact attributeName_ne_action (hkeys y hy) _ hsame.symm
  · rcases writtenName?_cases hname' with ⟨-, b, hb, hsame⟩ | ⟨hsame, hsome'⟩
    · exact attributeName_ne_action (hkeys x hx) _ hsame
    · -- Only the two keys of the class come to one name.
      have hcarries := Element.carries_of_mem hx hsome
      have hcarries' := Element.carries_of_mem hy hsome'
      unfold Element.doublesClass at hclass
      rcases attributeName_inj hne hsame with ⟨hkey, hkey'⟩ | ⟨hkey, hkey'⟩
      · rw [← hkey, ← hkey', hcarries, hcarries'] at hclass
        cases hclass
      · rw [← hkey, ← hkey', hcarries, hcarries'] at hclass
        cases hclass

private theorem nodup_names_iff (hydrate : Bool) {e : Element F N}
    (hkeys : ∀ entry ∈ e.attributes, ¬"data-action-".toList <+: entry.1.toList) :
    (e.attributes.filterMap (writtenName? hydrate)).Nodup ↔
      e.doublesClass = false ∧ (hydrate = true → (e.actions.map Action.event).Nodup) := by
  rw [pairwise_events]
  constructor
  · intro hnames
    refine ⟨doublesClass_eq_false_of_nodup hnames, ?_⟩
    rintro rfl
    refine (List.pairwise_filterMap.1 hnames).imp fun h a ha b hb heq => ?_
    exact h _ (writtenName?_of_action ha) _ (writtenName?_of_action hb)
      (congrArg ("data-action-" ++ ·) heq)
  · rintro ⟨hclass, hevents⟩
    have hdistinct := List.pairwise_map.1 e.nodup_keys
    rw [List.Nodup, List.pairwise_filterMap]
    cases hydrate with
    | false =>
      exact hdistinct.imp_of_mem fun hx hy hne _ hname _ hname' =>
        writtenName?_ne hkeys hclass hx hy hne hname hname' fun h => nomatch h
    | true =>
      refine (hdistinct.and (hevents rfl)).imp_of_mem fun hx hy hboth _ hname _ hname' => ?_
      exact writtenName?_ne hkeys hclass hx hy hboth.1 hname hname' fun _ => hboth.2

/-- The attributes of the opening tag of an element, read from the tag, have distinct names if and
only if the class is set under one key at most and, with hydration, no two of the published handlers
listen to one event. -/
theorem openTag_names_nodup_iff (hydrate : Bool) (e : Element F N) (r : Registry F)
    (hkeys : ∀ entry ∈ e.attributes, ¬"data-action-".toList <+: entry.1.toList) :
    ∃ attributes : List RawAttribute,
      (openTag hydrate e r).value.1.toList = (Token.opening e.tag.toList attributes).source ∧
      (∀ a ∈ attributes, IsAttribute a) ∧
      (∀ attributes', (∀ a ∈ attributes', IsAttribute a) →
        (openTag hydrate e r).value.1.toList = (Token.opening e.tag.toList attributes').source →
          attributes' = attributes) ∧
      ((attributes.map Prod.fst).Nodup ↔
        e.doublesClass = false ∧ (hydrate = true → (e.actions.map Action.event).Nodup)) := by
  have hsource := source_openingToken hydrate e r
  have hattributes := isAttribute_tagEntries hydrate e.mapped r.nextId
  rw [value_openTag, ← hsource]
  refine ⟨_, rfl, hattributes, fun attributes' hattributes' hsame => ?_, ?_⟩
  · simp only [Token.source, openingToken, List.append_assoc, List.cons_append, List.cons.injEq,
      true_and, List.append_cancel_left_eq] at hsame
    exact (attributes_inj hattributes' hattributes hsame.symm).1
  · have hnames : ((tagEntries hydrate e.mapped r.nextId).map Outline.rawAttribute).map Prod.fst =
        ((tagEntries hydrate e.mapped r.nextId).map Prod.fst).map String.toList := by
      rw [List.map_map, List.map_map]
      rfl
    rw [hnames, List.nodup_map_iff fun _ _ => String.toList_inj.1, names_mapped]
    exact nodup_names_iff hydrate hkeys

def twoClasses : Element String (Node String) :=
  ((Element.new "p").attr "class" (.str "a")).className "b"

/-- Handlers for one event under keys that differ in case. -/
def twoListeners : Element String (Node String) :=
  ((Element.new "p").attr "onClick" (.handler "open")).attr "onclick" (.handler "close")

/-- Names that stand twice: that of the class always, that of an event with hydration. -/
theorem openTag_names_doubled :
    (∃ attributes : List RawAttribute, (openTag false twoClasses {}).value.1.toList =
      (Token.opening twoClasses.tag.toList attributes).source ∧
        ¬(attributes.map Prod.fst).Nodup) ∧
    ∃ attributes : List RawAttribute, (openTag true twoListeners {}).value.1.toList =
      (Token.opening twoListeners.tag.toList attributes).source ∧
        ¬(attributes.map Prod.fst).Nodup := by
  constructor
  · have hkeys : ∀ entry ∈ twoClasses.attributes,
        ¬"data-action-".toList <+: entry.1.toList := by decide
    obtain ⟨attributes, hsource, -, -, hnodup⟩ := openTag_names_nodup_iff false twoClasses {} hkeys
    exact ⟨attributes, hsource, fun hnames => absurd (hnodup.1 hnames).1 (by decide)⟩
  · have hkeys : ∀ entry ∈ twoListeners.attributes,
        ¬"data-action-".toList <+: entry.1.toList := by decide
    obtain ⟨attributes, hsource, -, -, hnodup⟩ := openTag_names_nodup_iff true twoListeners {} hkeys
    exact ⟨attributes, hsource, fun hnames => absurd ((hnodup.1 hnames).2 rfl) (by decide)⟩

end TreeRender
