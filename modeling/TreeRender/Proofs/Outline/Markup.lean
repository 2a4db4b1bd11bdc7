import TreeRender.Markup.Renderer
import TreeRender.Proofs.Outline.Basic

/-!
# The markup of an outline

An outline is written in one of two orders. Bottom up, the content of an element is complete before
its opening tag is made; top down, the opening tag comes first. The orders only matter for the ids
that handlers get: without hydration both give `Outline.markup`.
-/

namespace TreeRender

open Markup

variable {F N : Type}

namespace Markup

/-- The opening tag of an element, and the registry with its handlers. -/
def openText (hydrate : Bool) (e : Element F N) (r : Registry F) : String × Registry F :=
  ("<" ++ e.tag ++ (tagAttributes hydrate e.mapped r).1 ++ ">", (tagAttributes hydrate e.mapped r).2)

theorem value_openTag (hydrate : Bool) (e : Element F N) (r : Registry F) :
    (openTag hydrate e r).value = openText hydrate e r := rfl

theorem tagAttribute_dry (a : Attribute F) (r : Registry F) :
    tagAttribute false a r = (attributeText a, r) := by
  cases a <;> rfl

theorem tagAttribute_published {event : String} (handler : F) (h : isValidName event = true)
    (r : Registry F) : tagAttribute true (.listener event handler) r =
      (" data-action-" ++ event ++ "=\"" ++ ActionId.text r.nextId ++ "\"",
        (r.publish event handler).2) := by
  simp only [tagAttribute, h, Bool.and_true, if_true]
  rfl

theorem tagAttribute_unpublished {event : String} (handler : F) (h : isValidName event = false)
    (r : Registry F) : tagAttribute true (.listener event handler) r = ("", r) := by
  simp only [tagAttribute, h, Bool.and_false, Bool.false_eq_true, if_false]

theorem tagAttributes_dry (attributes : List (Attribute F)) (r : Registry F) :
    tagAttributes false attributes r = (String.join (attributes.map attributeText), r) := by
  induction attributes with
  | nil => rfl
  | cons a rest ih =>
    rw [tagAttributes, tagAttribute_dry, List.map_cons, String.join_cons]
    simp only [ih]

/-- The opening tag of an element when nothing is published. -/
def dryTag (e : Element F N) : String :=
  "<" ++ e.tag ++ String.join (e.mapped.map attributeText) ++ ">"

theorem openText_dry (e : Element F N) (r : Registry F) : openText false e r = (dryTag e, r) := by
  rw [openText, tagAttributes_dry]
  rfl

/-- What stands between the opening tag and the next sibling. -/
def bodyText (e : Element F N) (content : String) : String :=
  if isVoid e.tag then "" else content ++ closeTag e.tag

theorem bodyText_congr {G M : Type} {e : Element F N} {e' : Element G M} (htag : e'.tag = e.tag)
    (content : String) : bodyText e' content = bodyText e content := by
  unfold bodyText
  rw [htag]

theorem value_elementText (hydrate : Bool) (e : Element F (Node F)) (content : List String)
    (r : Registry F) : (elementText hydrate e content r).value =
      ((openText hydrate e r).1 ++ bodyText e (String.join content), (openText hydrate e r).2) := by
  unfold elementText bodyText
  cases isVoid e.tag with
  | true => exact Prod.ext String.append_empty.symm rfl
  | false => exact Prod.ext String.append_assoc rfl

end Markup

namespace Outline

variable (hydrate : Bool) (fallback : String)

/-- The markup of an outline where each element is made after its content. -/
def bottomUp : Outline F → Registry F → String × Registry F
  | .nil, r => ("", r)
  | .text content rest, r =>
    let (more, r) := bottomUp rest r
    (escape content ++ more, r)
  | .fallback rest, r =>
    let (more, r) := bottomUp rest r
    (fallback ++ more, r)
  | .element e content rest, r =>
    let (inner, r) := bottomUp content r
    let (opening, r) := openText hydrate e r
    let (more, r) := bottomUp rest r
    (opening ++ bodyText e inner ++ more, r)

/-- The markup of an outline where each opening tag is made before the content. -/
def topDown : Outline F → Registry F → String × Registry F
  | .nil, r => ("", r)
  | .text content rest, r =>
    let (more, r) := topDown rest r
    (escape content ++ more, r)
  | .fallback rest, r =>
    let (more, r) := topDown rest r
    (fallback ++ more, r)
  | .element e content rest, r =>
    let (opening, r) := openText hydrate e r
    let (inner, r) := topDown content r
    let (more, r) := topDown rest r
    (opening ++ bodyText e inner ++ more, r)

def markup : Outline F → String
  | .nil => ""
  | .text content rest => escape content ++ markup rest
  | .fallback rest => fallback ++ markup rest
  | .element e content rest => dryTag e ++ bodyText e (markup content) ++ markup rest

variable {hydrate fallback}

theorem bottomUp_append (o o' : Outline F) (r : Registry F) :
    (o ++ o').bottomUp hydrate fallback r =
      ((o.bottomUp hydrate fallback r).1 ++
        (o'.bottomUp hydrate fallback (o.bottomUp hydrate fallback r).2).1,
       (o'.bottomUp hydrate fallback (o.bottomUp hydrate fallback r).2).2) := by
  induction o generalizing r with
  | nil => simp [bottomUp]
  | text content rest ih => simp only [text_append, bottomUp, ih, String.append_assoc]
  | fallback rest ih => simp only [fallback_append, bottomUp, ih, String.append_assoc]
  | element e content rest _ ih => simp only [element_append, bottomUp, ih, String.append_assoc]

theorem topDown_append (o o' : Outline F) (r : Registry F) :
    (o ++ o').topDown hydrate fallback r =
      ((o.topDown hydrate fallback r).1 ++
        (o'.topDown hydrate fallback (o.topDown hydrate fallback r).2).1,
       (o'.topDown hydrate fallback (o.topDown hydrate fallback r).2).2) := by
  induction o generalizing r with
  | nil => simp [topDown]
  | text content rest ih => simp only [text_append, topDown, ih, String.append_assoc]
  | fallback rest ih => simp only [fallback_append, topDown, ih, String.append_assoc]
  | element e content rest _ ih => simp only [element_append, topDown, ih, String.append_assoc]

theorem markup_append (o o' : Outline F) :
    (o ++ o').markup fallback = o.markup fallback ++ o'.markup fallback := by
  induction o with
  | nil => exact String.empty_append.symm
  | text content rest ih => simp only [text_append, markup, ih, String.append_assoc]
  | fallback rest ih => simp only [fallback_append, markup, ih, String.append_assoc]
  | element e content rest _ ih => simp only [element_append, markup, ih, String.append_assoc]

theorem bottomUp_dry (o : Outline F) (r : Registry F) :
    o.bottomUp false fallback r = (o.markup fallback, r) := by
  induction o generalizing r with
  | nil => rfl
  | text content rest ih => simp only [bottomUp, markup, ih]
  | fallback rest ih => simp only [bottomUp, markup, ih]
  | element e content rest ihc ih => simp only [bottomUp, markup, ihc, ih, openText_dry]

end Outline

end TreeRender
