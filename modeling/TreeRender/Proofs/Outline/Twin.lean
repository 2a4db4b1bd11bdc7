import Mathlib.Data.List.Forall2
import TreeRender.Proofs.Outline.FunctionFree

/-!
# Outlines that show the same

Elements of different trees may show the same: the tag and what the attributes come to are all that
is written of an element besides its content. Outlines that differ only in the sources of their
elements are written alike, in either order, and publish the same handlers.
-/

namespace TreeRender

open Markup

variable {F : Type}

/-- The same texts and failures, and elements with the same tags and attributes around content that
shows the same. -/
inductive Outline.Twin : Outline F → Outline F → Prop
  | nil : Twin .nil .nil
  | text {content rest rest'} : Twin rest rest' → Twin (.text content rest) (.text content rest')
  | fallback {rest rest'} : Twin rest rest' → Twin (.fallback rest) (.fallback rest')
  | element {e e' content content' rest rest'} : e'.tag = e.tag → e'.mapped = e.mapped →
    Twin content content' → Twin rest rest' →
    Twin (.element e content rest) (.element e' content' rest')

private theorem Markup.openText_congr {e e' : Element F (Node F)} (htag : e'.tag = e.tag)
    (hmapped : e'.mapped = e.mapped) (hydrate : Bool) (r : Registry F) :
    openText hydrate e' r = openText hydrate e r := by
  unfold openText
  rw [htag, hmapped]

namespace Outline.Twin

theorem refl (o : Outline F) : o.Twin o := by
  induction o with
  | nil => exact .nil
  | text content rest ih => exact .text ih
  | fallback rest ih => exact .fallback ih
  | element e content rest ihc ih => exact .element rfl rfl ihc ih

theorem append {o₁ o₁' o₂ o₂' : Outline F} (h₁ : o₁.Twin o₁') (h₂ : o₂.Twin o₂') :
    (o₁ ++ o₂).Twin (o₁' ++ o₂') := by
  induction h₁ with
  | nil => exact h₂
  | text _ ih => exact .text ih
  | fallback _ ih => exact .fallback ih
  | element htag hmapped hcontent _ _ ih => exact .element htag hmapped hcontent ih

variable {o o' : Outline F} (h : o.Twin o')

include h

theorem bottomUp_eq (hydrate : Bool) (fallback : String) (r : Registry F) :
    o'.bottomUp hydrate fallback r = o.bottomUp hydrate fallback r := by
  induction h generalizing r with
  | nil => rfl
  | text _ ih => simp only [bottomUp, ih]
  | fallback _ ih => simp only [bottomUp, ih]
  | element htag hmapped _ _ ihc ih =>
    simp only [bottomUp, ihc, ih, openText_congr htag hmapped, bodyText_congr htag]

theorem topDown_eq (hydrate : Bool) (fallback : String) (r : Registry F) :
    o'.topDown hydrate fallback r = o.topDown hydrate fallback r := by
  induction h generalizing r with
  | nil => rfl
  | text _ ih => simp only [topDown, ih]
  | fallback _ ih => simp only [topDown, ih]
  | element htag hmapped _ _ ihc ih =>
    simp only [topDown, ihc, ih, openText_congr htag hmapped, bodyText_congr htag]

end Outline.Twin

theorem Element.twin_around (e e' : Element F (Node F)) (htag : e'.tag = e.tag)
    (hmapped : e'.mapped = e.mapped) {content content' : Outline F} (h : content.Twin content') :
    (e.around content).Twin (e'.around content') := by
  unfold around
  rw [htag]
  cases isValidName e.tag with
  | false => exact .nil
  | true =>
    refine .element htag hmapped ?_ .nil
    cases isVoid e.tag with
    | false => exact h
    | true => exact .nil

/-- Results of outlining that show the same: the same error, or outlines that show the same. -/
inductive Outline.TwinResults :
    Except RenderError (Outline F) → Except RenderError (Outline F) → Prop
  | ok {o o'} : o.Twin o' → TwinResults (.ok o) (.ok o')
  | error e : TwinResults (.error e) (.error e)

theorem Outline.TwinResults.map_eq {α : Type} {p q : Except RenderError (Outline F)}
    (h : TwinResults p q) {f : Outline F → α} (hf : ∀ o o', o.Twin o' → f o' = f o) :
    q.map f = p.map f := by
  cases h with
  | ok htwin => exact congrArg Except.ok (hf _ _ htwin)
  | error e => rfl

/-- Trees without functions that show the same and take the same levels, also as the children of an
element. -/
structure Node.Twin (n n' : Node F) : Prop where
  outline : n.outline.Twin n'.outline
  height : n'.height = n.height
  members : Node.maxHeight n'.asChildren = Node.maxHeight n.asChildren

/-- Elements with the same tag and text, attributes that come to the same, and children that show
the same. -/
structure Element.Twin (e e' : Element F (Node F)) : Prop where
  tag : e'.tag = e.tag
  mapped : e'.mapped = e.mapped
  text : e'.text = e.text
  children : Option.Rel Node.Twin e.children e'.children

namespace Node.Twin

theorem refl (n : Node F) : n.Twin n := ⟨.refl _, rfl, rfl⟩

theorem collection {nodes nodes' : List (Node F)} (h : List.Forall₂ Node.Twin nodes nodes') :
    (Node.collection nodes).Twin (.collection nodes') := by
  have members : (Node.outlines nodes).Twin (Node.outlines nodes') ∧
      Node.maxHeight nodes' = Node.maxHeight nodes := by
    induction h with
    | nil => exact ⟨.nil, rfl⟩
    | cons hn _ ih => exact ⟨hn.outline.append ih.1, congrArg₂ max hn.height ih.2⟩
  exact ⟨members.1, congrArg (max 1) members.2, members.2⟩

theorem element {e e' : Element F (Node F)} (h : e.Twin e') :
    (Node.element e).Twin (.element e') := by
  obtain ⟨htag, hmapped, htext, hchildren⟩ := h
  have content : (childrenOutline e.children).Twin (childrenOutline e'.children) ∧
      Node.maxHeight e'.childNodes = Node.maxHeight e.childNodes := by
    generalize hc : e.children = c at hchildren
    generalize hc' : e'.children = c' at hchildren
    cases hchildren with
    | none => rw [e.childNodes_none hc, e'.childNodes_none hc']; exact ⟨.nil, rfl⟩
    | some h => rw [e.childNodes_some hc, e'.childNodes_some hc']; exact ⟨h.outline, h.members⟩
  have hheight : e'.height = e.height := by
    rw [e.height_eq, e'.height_eq, content.2, Element.isEntered, Element.isEntered, htag]
  refine ⟨?_, hheight, congrArg (max · 0) hheight⟩
  change e.outline.Twin e'.outline
  rw [e.outline_around, e'.outline_around, htext]
  exact e.twin_around e' htag hmapped ((Outline.Twin.refl _).append content.1)

theorem outlining {σ τ : Type} {n n' : Node F} (h : n.Twin n') (hn : n.containsFunction = false)
    (hn' : n'.containsFunction = false) (program : Program F σ) (program' : Program F τ)
    (config : Config) (state : σ) (state' : τ) :
    Outline.TwinResults (outlining program config n state).1
      (TreeRender.outlining program' config n' state').1 := by
  rw [(outlining_functionFree program config hn state).1,
    (outlining_functionFree program' config hn' state').1, h.height]
  by_cases hfits : n.height ≤ config.maxDepth
  · rw [if_pos hfits, if_pos hfits]
    exact .ok h.outline
  · rw [if_neg hfits, if_neg hfits]
    exact .error _

end Node.Twin

end TreeRender
