import TreeRender.Proofs.Containment.Outline
import TreeRender.Proofs.Dom.Html

/-!
# What shows of a replaced failure

Where the fallback stands for the marks of failures, an outline is written as before, whatever order
the elements are made in and also with hydration: a handler shows only as the id that it gets. The
fallback has to be a text that escaping leaves as it is, as markup takes it for a mark without
escaping it.
-/

namespace TreeRender

open Markup

variable {F G : Type} {f : F → G}

namespace Markup

private theorem tagAttribute_rename (hydrate : Bool) (a : Attribute F) {r : Registry F}
    {r' : Registry G}
    (hids : r'.nextId = r.nextId) :
    (tagAttribute hydrate (a.rename f) r').1 = (tagAttribute hydrate a r).1 ∧
      (tagAttribute hydrate (a.rename f) r').2.nextId = (tagAttribute hydrate a r).2.nextId := by
  cases a with
  | listener event handler =>
    cases hydrate with
    | false => exact ⟨rfl, hids⟩
    | true =>
      rw [Attribute.rename]
      cases hevent : isValidName event with
      | false =>
        rw [tagAttribute_unpublished _ hevent, tagAttribute_unpublished _ hevent]
        exact ⟨rfl, hids⟩
      | true =>
        rw [tagAttribute_published _ hevent, tagAttribute_published _ hevent, hids]
        exact ⟨rfl, congrArg (· + 1) hids⟩
  | _ => exact ⟨rfl, hids⟩

private theorem tagAttributes_rename (hydrate : Bool) (attributes : List (Attribute F))
    {r : Registry F}
    {r' : Registry G} (hids : r'.nextId = r.nextId) :
    (tagAttributes hydrate (attributes.map (Attribute.rename f)) r').1 =
        (tagAttributes hydrate attributes r).1 ∧
      (tagAttributes hydrate (attributes.map (Attribute.rename f)) r').2.nextId =
        (tagAttributes hydrate attributes r).2.nextId := by
  induction attributes generalizing r r' with
  | nil => exact ⟨rfl, hids⟩
  | cons a rest ih =>
    obtain ⟨htext, hnext⟩ := tagAttribute_rename (f := f) hydrate a hids
    obtain ⟨hmore, hlast⟩ := ih hnext
    simp only [List.map_cons, tagAttributes, htext, hmore]
    exact ⟨trivial, hlast⟩

private theorem openText_rename (hydrate : Bool) {e : Element F (Node F)} {e' : Element G (Node G)}
    (htag : e'.tag = e.tag) (hmapped : e'.mapped = e.mapped.map (Attribute.rename f))
    {r : Registry F} {r' : Registry G} (hids : r'.nextId = r.nextId) :
    (openText hydrate e' r').1 = (openText hydrate e r).1 ∧
      (openText hydrate e' r').2.nextId = (openText hydrate e r).2.nextId := by
  obtain ⟨htext, hnext⟩ := tagAttributes_rename (f := f) hydrate e.mapped hids
  unfold openText
  rw [htag, hmapped, htext]
  exact ⟨rfl, hnext⟩

end Markup

namespace Outline.Filled

variable {fallback : String} {o : Outline F} {o' : Outline G} (h : o.Filled f fallback o')
  (hplain : escape fallback = fallback)

include h hplain

theorem bottomUp (hydrate : Bool) {r : Registry F} {r' : Registry G}
    (hids : r'.nextId = r.nextId) :
    (o'.bottomUp hydrate fallback r').1 = (o.bottomUp hydrate fallback r).1 ∧
      (o'.bottomUp hydrate fallback r').2.nextId = (o.bottomUp hydrate fallback r).2.nextId := by
  induction h generalizing r r' with
  | nil => exact ⟨rfl, hids⟩
  | text _ ih =>
    obtain ⟨hmore, hnext⟩ := ih hids
    simp only [Outline.bottomUp, hmore]
    exact ⟨trivial, hnext⟩
  | fallback _ ih =>
    obtain ⟨hmore, hnext⟩ := ih hids
    simp only [Outline.bottomUp, hmore, hplain]
    exact ⟨trivial, hnext⟩
  | element htag hmapped _ _ ihc ih =>
    obtain ⟨hinner, hids⟩ := ihc hids
    obtain ⟨hopening, hids⟩ := openText_rename hydrate htag hmapped hids
    obtain ⟨hmore, hids⟩ := ih hids
    simp only [Outline.bottomUp, hinner, hopening, hmore, bodyText_congr htag]
    exact ⟨trivial, hids⟩

theorem topDown (hydrate : Bool) {r : Registry F} {r' : Registry G}
    (hids : r'.nextId = r.nextId) :
    (o'.topDown hydrate fallback r').1 = (o.topDown hydrate fallback r).1 ∧
      (o'.topDown hydrate fallback r').2.nextId = (o.topDown hydrate fallback r).2.nextId := by
  induction h generalizing r r' with
  | nil => exact ⟨rfl, hids⟩
  | text _ ih =>
    obtain ⟨hmore, hnext⟩ := ih hids
    simp only [Outline.topDown, hmore]
    exact ⟨trivial, hnext⟩
  | fallback _ ih =>
    obtain ⟨hmore, hnext⟩ := ih hids
    simp only [Outline.topDown, hmore, hplain]
    exact ⟨trivial, hnext⟩
  | element htag hmapped _ _ ihc ih =>
    obtain ⟨hopening, hids⟩ := openText_rename hydrate htag hmapped hids
    obtain ⟨hinner, hids⟩ := ihc hids
    obtain ⟨hmore, hids⟩ := ih hids
    simp only [Outline.topDown, hopening, hinner, hmore, bodyText_congr htag]
    exact ⟨trivial, hids⟩

end Outline.Filled

private theorem Attribute.filterMap_stored?_rename (attributes : List (Attribute F)) :
    (attributes.map (Attribute.rename f)).filterMap Attribute.stored? =
      attributes.filterMap Attribute.stored? := by
  rw [List.filterMap_map]
  congr 1
  funext a
  cases a <;> rfl

namespace Dom.Document

theorem Mirrors.html_filled {fallback : String} {d : Document F} {d' : Document G}
    {first first' : Nat} {o : Outline F} {o' : Outline G} (h : o.Filled f fallback o')
    {ids ids' : List NodeId} (hmirrors : d.Mirrors fallback first ids o)
    (hmirrors' : d'.Mirrors fallback first' ids' o') {levels levels' : Nat}
    (hlevels : ∀ id ∈ ids, id < levels) (hlevels' : ∀ id ∈ ids', id < levels') :
    String.join (ids'.map (d'.htmlFrom levels')) = String.join (ids.map (d.htmlFrom levels)) := by
  induction h generalizing ids ids' levels levels' with
  | nil =>
    cases hmirrors
    cases hmirrors'
    rfl
  | text _ ih =>
    cases hmirrors with | text _ hnode hrest =>
    cases hmirrors' with | text _ hnode' hrest' =>
    obtain ⟨hlevel, hbelow⟩ := List.forall_mem_cons.1 hlevels
    obtain ⟨hlevel', hbelow'⟩ := List.forall_mem_cons.1 hlevels'
    rw [List.map_cons, List.map_cons, String.join_cons, String.join_cons,
      htmlFrom_text hnode hlevel, htmlFrom_text hnode' hlevel', ih hrest hrest' hbelow hbelow']
  | fallback _ ih =>
    cases hmirrors' with | text _ hnode' hrest' =>
    obtain ⟨hlevel', hbelow'⟩ := List.forall_mem_cons.1 hlevels'
    rw [List.map_cons, String.join_cons, htmlFrom_text hnode' hlevel']
    cases hmirrors with
    | noFallback hempty hrest =>
      rw [ih hrest hrest' hlevels hbelow', hempty]
      exact String.empty_append
    | fallback _ _ hnode hrest =>
      obtain ⟨hlevel, hbelow⟩ := List.forall_mem_cons.1 hlevels
      rw [List.map_cons, String.join_cons, htmlFrom_text hnode hlevel,
        ih hrest hrest' hbelow hbelow']
  | element htag hmapped _ _ ihc ih =>
    cases hmirrors with | @element _ live _ _ _ _ _ hnode hshows hchildren hcontent hrest =>
    cases hmirrors' with | @element _ live' _ _ _ _ _ hnode' hshows' hchildren' hcontent' hrest' =>
    obtain ⟨hlevel, hmore⟩ := List.forall_mem_cons.1 hlevels
    obtain ⟨hlevel', hmore'⟩ := List.forall_mem_cons.1 hlevels'
    cases levels with
    | zero => cases hlevel
    | succ n =>
      cases levels' with
      | zero => cases hlevel'
      | succ n' =>
        have hbelow (child : NodeId) (hchild : child ∈ live.children) : child < n :=
          Nat.lt_of_lt_of_le (hchildren child hchild) (Nat.le_of_lt_succ hlevel)
        have hbelow' (child : NodeId) (hchild : child ∈ live'.children) : child < n' :=
          Nat.lt_of_lt_of_le (hchildren' child hchild) (Nat.le_of_lt_succ hlevel')
        have hattributes : live'.attributes = live.attributes := by
          rw [hshows'.attributes, hshows.attributes, hmapped, Attribute.filterMap_stored?_rename]
        have htags : live'.tag = live.tag := by rw [hshows'.tag, hshows.tag, htag]
        rw [List.map_cons, List.map_cons, String.join_cons, String.join_cons,
          htmlFrom_element hnode, htmlFrom_element hnode', ih hrest hrest' hmore hmore']
        simp only [htags, hattributes, ihc hcontent hcontent' hbelow hbelow']

end Dom.Document

end TreeRender
