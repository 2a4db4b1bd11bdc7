import Mathlib.Data.ENat.Lattice
import Mathlib.Order.CompletePartialOrder
import TreeRender.Proofs.Outline.FunctionFree

/-!
# Heights of unfolded trees

How many depth levels a tree takes once its producers are called, each of which always returns the
same tree. A producer may return a tree in which it stands again, so a height need not be finite.
-/

namespace TreeRender

variable {F : Type} {unfold : F → Node F}

/-- What it means for `h` to tell the heights of trees whose producers return what `unfold` says. -/
structure IsHeight (unfold : F → Node F) (h : Node F → ℕ∞) : Prop where
  empty : h .empty = 1
  text : ∀ value, h (.text value) = 1
  producer : ∀ name, h (.component (.producer name)) = 1 + h (unfold name)
  collection : ∀ nodes, h (.collection nodes) = max 1 (⨆ n ∈ nodes, h n)
  unentered : ∀ e : Element F (Node F), e.isEntered = false → h (.element e) = 1
  entered : ∀ e : Element F (Node F), e.isEntered = true →
    h (.element e) = 1 + ⨆ n ∈ e.childNodes, h n

private theorem eq_of_forall_le_natCast {a b : ℕ∞} (h : ∀ k : Nat, a ≤ k ↔ b ≤ k) : a = b := by
  apply eq_of_forall_ge_iff
  intro c
  cases c using ENat.recTopCoe with
  | top => simp only [le_top]
  | coe k => exact h k

theorem one_add_le_succ {a : ℕ∞} {k : Nat} : 1 + a ≤ ((k + 1 : Nat) : ℕ∞) ↔ a ≤ k := by
  rw [Nat.cast_succ, add_comm (k : ℕ∞) 1]
  exact ENat.add_le_add_iff_left (ENat.natCast_ne_top 1)

theorem one_le_succ {k : Nat} : 1 ≤ ((k + 1 : Nat) : ℕ∞) := by
  exact_mod_cast Nat.succ_le_succ (Nat.zero_le k)

theorem not_le_zero_of_one_le {a : ℕ∞} (h : 1 ≤ a) : ¬a ≤ ((0 : Nat) : ℕ∞) := by
  intro hle
  have hcontra : ((1 : Nat) : ℕ∞) ≤ ((0 : Nat) : ℕ∞) := h.trans hle
  exact absurd (Nat.cast_le.1 hcontra) (Nat.not_succ_le_zero 0)

theorem eq_of_forall_le_succ {a b : ℕ∞} (ha : 1 ≤ a) (hb : 1 ≤ b)
    (h : ∀ levels : Nat, a ≤ (levels + 1 : Nat) ↔ b ≤ (levels + 1 : Nat)) : a = b := by
  apply eq_of_forall_le_natCast
  intro k
  cases k with
  | zero => exact iff_of_false (not_le_zero_of_one_le ha) (not_le_zero_of_one_le hb)
  | succ levels => exact h levels

theorem iInf_natCast_le {P : Nat → Prop} (hmono : ∀ {k l}, P k → k ≤ l → P l) {k : Nat} :
    ⨅ (l : Nat) (_ : P l), (l : ℕ∞) ≤ k ↔ P k := by
  constructor
  · intro hle
    by_contra hk
    have hmore : ((k + 1 : Nat) : ℕ∞) ≤ ⨅ (l : Nat) (_ : P l), (l : ℕ∞) := by
      apply le_iInf₂
      intro l hl
      have hlt : k < l := by
        by_contra hnot
        exact hk (hmono hl (Nat.not_lt.1 hnot))
      exact Nat.cast_le.2 hlt
    have hcontra : ((k + 1 : Nat) : ℕ∞) ≤ k := hmore.trans hle
    exact absurd (Nat.cast_le.1 hcontra) (Nat.not_succ_le_self k)
  · intro hk
    exact iInf₂_le k hk

inductive Fits (unfold : F → Node F) : Nat → Node F → Prop
  | empty {levels} : Fits unfold (levels + 1) .empty
  | text {levels value} : Fits unfold (levels + 1) (.text value)
  | producer {levels name} : Fits unfold levels (unfold name) →
    Fits unfold (levels + 1) (.component (.producer name))
  | provider {levels name} : Fits unfold (levels + 1) (.component (.provider name))
  | collection {levels nodes} : (∀ n ∈ nodes, Fits unfold (levels + 1) n) →
    Fits unfold (levels + 1) (.collection nodes)
  | unentered {levels} {e : Element F (Node F)} : e.isEntered = false →
    Fits unfold (levels + 1) (.element e)
  | entered {levels} {e : Element F (Node F)} : e.isEntered = true →
    (∀ n ∈ e.childNodes, Fits unfold levels n) → Fits unfold (levels + 1) (.element e)

private theorem Fits.succ {levels : Nat} {node : Node F} (h : Fits unfold levels node) :
    Fits unfold (levels + 1) node := by
  induction h with
  | empty => exact .empty
  | text => exact .text
  | producer _ ih => exact .producer ih
  | provider => exact .provider
  | collection _ ih => exact .collection ih
  | unentered he => exact .unentered he
  | entered he _ ih => exact .entered he ih

theorem Fits.mono {levels more : Nat} {node : Node F} (h : Fits unfold levels node)
    (hle : levels ≤ more) : Fits unfold more node := by
  induction hle with
  | refl => exact h
  | step _ ih => exact ih.succ

/-- The height of an unfolded tree: the number of levels from which on it fits. -/
noncomputable def Node.unfoldedHeight (unfold : F → Node F) (node : Node F) : ℕ∞ :=
  ⨅ (levels : Nat) (_ : Fits unfold levels node), (levels : ℕ∞)

theorem Node.unfoldedHeight_le {node : Node F} {levels : Nat} :
    node.unfoldedHeight unfold ≤ levels ↔ Fits unfold levels node :=
  iInf_natCast_le Fits.mono

private theorem Fits.pos {levels : Nat} {node : Node F} (h : Fits unfold levels node) : 1 ≤ levels
    := by
  cases h <;> exact Nat.le_add_left 1 _

private theorem Node.one_le_unfoldedHeight (node : Node F) : 1 ≤ node.unfoldedHeight unfold :=
  le_iInf₂ fun levels hfits => by exact_mod_cast Fits.pos hfits

private theorem Node.unfoldedHeight_eq {node : Node F} {a : ℕ∞} (hpos : 1 ≤ a)
    (h : ∀ levels : Nat, Fits unfold (levels + 1) node ↔ a ≤ (levels + 1 : Nat)) :
    node.unfoldedHeight unfold = a :=
  eq_of_forall_le_succ (one_le_unfoldedHeight node) hpos fun levels =>
    Node.unfoldedHeight_le.trans (h levels)

theorem isHeight_unfoldedHeight (unfold : F → Node F) :
    IsHeight unfold (Node.unfoldedHeight unfold) where
  empty := Node.unfoldedHeight_eq le_rfl fun _ => iff_of_true .empty one_le_succ
  text _ := Node.unfoldedHeight_eq le_rfl fun _ => iff_of_true .text one_le_succ
  producer name := by
    apply Node.unfoldedHeight_eq le_self_add
    intro levels
    rw [one_add_le_succ, Node.unfoldedHeight_le]
    exact ⟨fun h => by cases h; assumption, .producer⟩
  collection nodes := by
    apply Node.unfoldedHeight_eq (le_max_left _ _)
    intro levels
    rw [max_le_iff, iSup₂_le_iff]
    simp only [Node.unfoldedHeight_le]
    exact ⟨fun h => ⟨one_le_succ, by cases h; assumption⟩, fun h => .collection h.2⟩
  unentered e he :=
    Node.unfoldedHeight_eq le_rfl fun _ => iff_of_true (.unentered he) one_le_succ
  entered e he := by
    apply Node.unfoldedHeight_eq le_self_add
    intro levels
    rw [one_add_le_succ, iSup₂_le_iff]
    simp only [Node.unfoldedHeight_le]
    constructor
    · intro h
      cases h with
      | unentered hno => rw [he] at hno; cases hno
      | entered _ hfits => exact hfits
    · exact .entered he

inductive Meets (unfold : F → Node F) (node : Node F) : Node F → Prop
  | self : Meets unfold node node
  | member {nodes n} : Meets unfold node (.collection nodes) → n ∈ nodes → Meets unfold node n
  | child {e : Element F (Node F)} {n} : Meets unfold node (.element e) → e.isEntered = true →
    n ∈ e.childNodes → Meets unfold node n
  | produced {name} : Meets unfold node (.component (.producer name)) →
    Meets unfold node (unfold name)

theorem Meets.trans {node m n : Node F} (h : Meets unfold node m) (h' : Meets unfold m n) :
    Meets unfold node n := by
  induction h' with
  | self => exact h
  | member _ hmem ih => exact .member ih hmem
  | child _ he hmem ih => exact .child ih he hmem
  | produced _ ih => exact .produced ih

private theorem iSup_eq_maxHeight {h : Node F → ℕ∞} (nodes : List (Node F))
    (hnodes : ∀ n ∈ nodes, h n = n.height) :
    ⨆ n ∈ nodes, h n = Node.maxHeight nodes := by
  induction nodes with
  | nil => simp [Node.maxHeight]
  | cons n rest ih =>
    have hrest := ih fun m hm => hnodes m (by simp [hm])
    simp only [List.mem_cons, iSup_or, iSup_sup_eq, iSup_iSup_eq_left, hrest, Node.maxHeight,
      hnodes n (by simp)]
    exact (Nat.mono_cast.map_max).symm

namespace IsHeight

variable {h : Node F → ℕ∞} (hh : IsHeight unfold h)

include hh

private theorem le_of_meets {node m : Node F} (hmeets : Meets unfold node m) : h m ≤ h node := by
  induction hmeets with
  | self => exact le_rfl
  | @member nodes n _ hmem ih =>
    refine le_trans ?_ ih
    rw [hh.collection]
    exact le_max_of_le_right (le_iSup₂ (f := fun n _ => h n) n hmem)
  | @child e n _ he hmem ih =>
    refine le_trans ?_ ih
    rw [hh.entered e he]
    exact le_add_of_le_right (le_iSup₂ (f := fun n _ => h n) n hmem)
  | produced _ ih =>
    refine le_trans ?_ ih
    rw [hh.producer]
    exact le_add_self

theorem eq_top {name : F} (hmeets : Meets unfold (unfold name) (.component (.producer name))) :
    h (.component (.producer name)) = ⊤ := by
  have hle : 1 + h (.component (.producer name)) ≤ h (.component (.producer name)) := by
    have hagain := hh.le_of_meets hmeets
    have hproducer := hh.producer name
    calc 1 + h (.component (.producer name))
      _ ≤ 1 + h (unfold name) := add_le_add_right hagain 1
      _ = h (.component (.producer name)) := hproducer.symm
  generalize h (.component (.producer name)) = a at hle
  cases a using ENat.recTopCoe with
  | top => rfl
  | coe k =>
    have hcontra : 1 + k ≤ k := by exact_mod_cast hle
    omega

private theorem element_eq {e : Element F (Node F)} (hnodes : ∀ n ∈ e.childNodes, h n = n.height) :
    h (.element e) = e.height := by
  rw [e.height_eq]
  cases he : e.isEntered with
  | false =>
    rw [hh.unentered e he]
    rfl
  | true =>
    rw [hh.entered e he, iSup_eq_maxHeight e.childNodes hnodes, if_pos rfl]
    push_cast
    rfl

/-- The height of a tree without functions is found without unfolding anything. -/
theorem eq_height {node : Node F} (hfree : node.containsFunction = false) :
    h node = node.height := by
  -- a collection in child position does not count by itself, so its members are needed besides
  suffices hboth : h node = node.height ∧
      ∀ nodes, node = .collection nodes → ∀ n ∈ nodes, h n = n.height from hboth.1
  induction node using Node.inductOn with
  | empty => exact ⟨hh.empty, fun _ he => nomatch he⟩
  | text value => exact ⟨hh.text value, fun _ he => nomatch he⟩
  | component c => cases hfree
  | collection nodes ih =>
    have members (n : Node F) (hn : n ∈ nodes) : h n = n.height :=
      (ih n hn (Node.anyContainsFunction_eq_false hfree n hn)).1
    refine ⟨?_, fun nodes' he n hn => ?_⟩
    · rw [hh.collection, iSup_eq_maxHeight nodes members]
      exact (Nat.mono_cast.map_max).symm
    · cases he
      exact members n hn
  | element e ih =>
    have hchildren := (e.function_free hfree).2
    refine ⟨hh.element_eq fun n hn => ?_, fun _ he => nomatch he⟩
    unfold Element.childNodes at hn
    cases hc : e.children with
    | none =>
      rw [hc] at hn
      cases hn
    | some child =>
      obtain ⟨hchild, hmembers⟩ := ih child hc (hchildren child hc)
      rw [hc] at hn
      cases child with
      | collection nodes => exact hmembers nodes rfl n hn
      | _ =>
        cases List.mem_singleton.1 hn
        exact hchild

end IsHeight

end TreeRender
