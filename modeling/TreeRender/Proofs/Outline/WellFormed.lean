import TreeRender.Proofs.Outline.Realize

/-!
# Outlines of trees

Not every outline comes from a tree: in one that does, the elements have names that can be written,
and void elements are empty.
-/

namespace TreeRender

open Markup

variable {F σ : Type}

namespace Outline

def WellFormed : Outline F → Prop
  | .nil => True
  | .text _ rest => rest.WellFormed
  | .fallback rest => rest.WellFormed
  | .element e content rest => isValidName e.tag = true ∧ (isVoid e.tag = true → content = .nil) ∧
    content.WellFormed ∧ rest.WellFormed

theorem WellFormed.append {o o' : Outline F} (h : o.WellFormed) (h' : o'.WellFormed) :
    (o ++ o').WellFormed := by
  induction o with
  | nil => exact h'
  | text content rest ih => exact ih h
  | fallback rest ih => exact ih h
  | element e content rest _ ih => exact ⟨h.1, h.2.1, h.2.2.1, ih h.2.2.2⟩

private theorem wellFormed_join {us os : List (Outline F)} {b b' : Unit}
    (h : Chain (fun _ _ u o => u = o ∧ o.WellFormed) b b' us os) : us = os ∧ (join os).WellFormed := by
  induction h with
  | nil => exact ⟨rfl, trivial⟩
  | cons hr _ ih => exact ⟨by rw [hr.1, ih.1], hr.2.append ih.2⟩

private theorem realizes_wellFormed (fallback : String) :
    (backend : Backend F Unit (Outline F)).Realizes fallback
      (fun _ _ u o => u = o ∧ o.WellFormed) where
  empty _ := ⟨rfl, trivial⟩
  text _ _ := ⟨rfl, trivial⟩
  fallback _ := ⟨rfl, trivial⟩
  fragment h := by
    obtain ⟨rfl, hjoin⟩ := wellFormed_join h
    exact ⟨rfl, hjoin⟩
  element {_ _ us os} e hvalid hvoid h := by
    obtain ⟨rfl, hjoin⟩ := wellFormed_join h
    refine ⟨rfl, hvalid, fun hv => ?_, hjoin, trivial⟩
    rw [hvoid hv]
    rfl
  restore h := nomatch h
  store h := nomatch h

end Outline

theorem wellFormed_of_exec {program : Program F σ} {config : Config} {levels depth : Nat}
    (hdepth : depth + levels = config.maxDepth + 1) {node : Node F} {s s' : WalkState σ Unit}
    (hs : s.cache.Valid F config) {o : Outline F}
    (h : (outlineFrom program config levels depth node).exec s = (.ok o, s')) : o.WellFormed := by
  have agree : Walk.Agree (WalkState.Beside config F) (fun _ u o => u = o ∧ o.WellFormed)
      ((outlineFrom program config levels depth node).exec s)
      ((outlineFrom program config levels depth node).exec s) :=
    (Outline.realizes_wellFormed config.errorFallback).tracks hdepth node () s s rfl
      ⟨rfl, rfl, rfl, rfl, hs⟩
  rw [h] at agree
  cases agree with
  | ok hr _ => exact hr.2

/-- The outline of a tree is well-formed. -/
theorem wellFormed_of_outlining {program : Program F σ} {config : Config} {node : Node F}
    {state : σ} {o : Outline F} (h : (outlining program config node state).1 = .ok o) :
    o.WellFormed :=
  wellFormed_of_exec (Nat.add_comm _ _) (s := outlineStart state) (FragmentCache.valid_empty 0 none)
    (Prod.ext h rfl)

end TreeRender
