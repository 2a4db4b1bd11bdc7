import TreeRender.Proofs.Depth.Height

/-!
# Heights of resolved trees

How many depth levels resolving a tree through a scope takes, where each producer always returns the
same tree. Resolving goes into the children of every element, also of those that the walk does not
enter, and takes a collection of children for a node of its own, also an empty one. So it takes at
least the levels of the walk.
-/

namespace TreeRender

variable {F : Type} {unfold : F → Node F}

private theorem Element.mem_childNodes {e : Element F (Node F)} {n : Node F} (h : n ∈ e.childNodes)
    :
    e.children = some n ∨ ∃ nodes, e.children = some (.collection nodes) ∧ n ∈ nodes := by
  unfold childNodes at h
  cases hc : e.children with
  | none =>
    rw [hc] at h
    cases h
  | some child =>
    rw [hc] at h
    cases child with
    | collection nodes => exact .inr ⟨nodes, rfl, h⟩
    | _ => exact .inl (congrArg some (List.mem_singleton.1 h).symm)

inductive Reaches (unfold : F → Node F) (node : Node F) : Node F → Prop
  | self : Reaches unfold node node
  | member {nodes n} : Reaches unfold node (.collection nodes) → n ∈ nodes → Reaches unfold node n
  | child {e : Element F (Node F)} {n} : Reaches unfold node (.element e) →
    e.children = some n → Reaches unfold node n
  | produced {name} : Reaches unfold node (.component (.producer name)) →
    Reaches unfold node (unfold name)

theorem Reaches.trans {node m n : Node F} (h : Reaches unfold node m) (h' : Reaches unfold m n) :
    Reaches unfold node n := by
  induction h' with
  | self => exact h
  | member _ hmem ih => exact .member ih hmem
  | child _ hc ih => exact .child ih hc
  | produced _ ih => exact .produced ih

theorem Meets.reaches {node n : Node F} (h : Meets unfold node n) : Reaches unfold node n := by
  induction h with
  | self => exact .self
  | member _ hmem ih => exact .member ih hmem
  | child _ _ hmem ih =>
    rcases Element.mem_childNodes hmem with hc | ⟨nodes, hc, hmem⟩
    · exact .child ih hc
    · exact .member (.child ih hc) hmem
  | produced _ ih => exact .produced ih

/-- What it means for `h` to tell how many levels resolving takes, where producers return what
`unfold` says. -/
structure IsScopedHeight (unfold : F → Node F) (h : Node F → ℕ∞) : Prop where
  empty : h .empty = 1
  text : ∀ value, h (.text value) = 1
  producer : ∀ name, h (.component (.producer name)) = 1 + h (unfold name)
  collection : ∀ nodes, h (.collection nodes) = max 1 (⨆ n ∈ nodes, h n)
  childless : ∀ e : Element F (Node F), e.children = none → h (.element e) = 1
  element : ∀ (e : Element F (Node F)) n, e.children = some n → h (.element e) = 1 + h n

inductive FitsScope (unfold : F → Node F) : Nat → Node F → Prop
  | empty {levels} : FitsScope unfold (levels + 1) .empty
  | text {levels value} : FitsScope unfold (levels + 1) (.text value)
  | producer {levels name} : FitsScope unfold levels (unfold name) →
    FitsScope unfold (levels + 1) (.component (.producer name))
  | provider {levels name} : FitsScope unfold (levels + 1) (.component (.provider name))
  | collection {levels nodes} : (∀ n ∈ nodes, FitsScope unfold (levels + 1) n) →
    FitsScope unfold (levels + 1) (.collection nodes)
  | element {levels} {e : Element F (Node F)} :
    (∀ n, e.children = some n → FitsScope unfold levels n) →
    FitsScope unfold (levels + 1) (.element e)

namespace FitsScope

variable {levels : Nat} {node : Node F}

private theorem succ (h : FitsScope unfold levels node) : FitsScope unfold (levels + 1) node := by
  induction h with
  | empty => exact .empty
  | text => exact .text
  | producer _ ih => exact .producer ih
  | provider => exact .provider
  | collection _ ih => exact .collection ih
  | element _ ih => exact .element ih

theorem mono {more : Nat} (h : FitsScope unfold levels node) (hle : levels ≤ more) :
    FitsScope unfold more node := by
  induction hle with
  | refl => exact h
  | step _ ih => exact ih.succ

theorem pos (h : FitsScope unfold levels node) : 1 ≤ levels := by
  cases h <;> exact Nat.le_add_left 1 _

private theorem fits (h : FitsScope unfold levels node) : Fits unfold levels node := by
  induction h with
  | empty => exact .empty
  | text => exact .text
  | producer _ ih => exact .producer ih
  | provider => exact .provider
  | collection _ ih => exact .collection ih
  | @element levels e _ ih =>
    cases he : e.isEntered with
    | false => exact .unentered he
    | true =>
      refine .entered he fun n hn => ?_
      rcases Element.mem_childNodes hn with hc | ⟨nodes, hc, hmem⟩
      · exact ih n hc
      · cases ih _ hc with
        | collection members => exact members n hmem

end FitsScope

private theorem Fits.fitsScope {levels : Nat} {node : Node F} (h : Fits unfold levels node)
    (hchildren : ∀ (e : Element F (Node F)) n, Reaches unfold node (.element e) →
      e.children = some n → e.isEntered = true ∧ n ≠ .collection []) :
    FitsScope unfold levels node := by
  induction h with
  | empty => exact .empty
  | text => exact .text
  | producer _ ih =>
    exact .producer (ih fun e n he => hchildren e n ((Reaches.produced .self).trans he))
  | provider => exact .provider
  | collection _ ih =>
    refine .collection fun n hn => ih n hn fun e m he => ?_
    exact hchildren e m ((Reaches.member .self hn).trans he)
  | unentered he =>
    refine .element fun n hc => ?_
    rw [(hchildren _ n .self hc).1] at he
    cases he
  | @entered levels e he _ ih =>
    refine .element fun n hc => ?_
    have below (m : Node F) (hm : m ∈ e.childNodes) : FitsScope unfold levels m :=
      ih m hm fun e' n' he' =>
        hchildren e' n' ((Meets.child .self he hm).reaches.trans he')
    unfold Element.childNodes at below
    rw [hc] at below
    cases n with
    | collection nodes =>
      obtain ⟨first, rest, rfl⟩ : ∃ first rest, nodes = first :: rest :=
        List.exists_cons_of_ne_nil fun hnil => (hchildren e _ .self hc).2 (by rw [hnil])
      -- a member shows that there is a level, which the collection itself takes
      obtain ⟨l, rfl⟩ : ∃ l, levels = l + 1 :=
        ⟨levels - 1, (Nat.sub_add_cancel (below first (by simp)).pos).symm⟩
      exact .collection below
    | _ => exact below _ (List.mem_singleton.2 rfl)

/-- The height of a tree that is resolved: the number of levels from which on resolving fits. -/
noncomputable def Node.scopedHeight (unfold : F → Node F) (node : Node F) : ℕ∞ :=
  ⨅ (levels : Nat) (_ : FitsScope unfold levels node), (levels : ℕ∞)

namespace Node

theorem scopedHeight_le {node : Node F} {levels : Nat} :
    node.scopedHeight unfold ≤ levels ↔ FitsScope unfold levels node :=
  iInf_natCast_le FitsScope.mono

private theorem one_le_scopedHeight (node : Node F) : 1 ≤ node.scopedHeight unfold :=
  le_iInf₂ fun levels hfits => by exact_mod_cast FitsScope.pos hfits

private theorem scopedHeight_eq {node : Node F} {a : ℕ∞} (hpos : 1 ≤ a)
    (h : ∀ levels : Nat, FitsScope unfold (levels + 1) node ↔ a ≤ (levels + 1 : Nat)) :
    node.scopedHeight unfold = a :=
  eq_of_forall_le_succ (one_le_scopedHeight node) hpos fun levels =>
    scopedHeight_le.trans (h levels)

theorem unfoldedHeight_le_scopedHeight (node : Node F) :
    node.unfoldedHeight unfold ≤ node.scopedHeight unfold :=
  le_iInf₂ fun _ hfits => unfoldedHeight_le.2 hfits.fits

/-- Where the walk goes into all children, and no collection of children is empty, resolving takes
the levels of the walk. -/
theorem scopedHeight_eq_unfoldedHeight {node : Node F}
    (hchildren : ∀ (e : Element F (Node F)) n, Reaches unfold node (.element e) →
      e.children = some n → e.isEntered = true ∧ n ≠ .collection []) :
    node.scopedHeight unfold = node.unfoldedHeight unfold :=
  le_antisymm (le_iInf₂ fun _ hfits => scopedHeight_le.2 (hfits.fitsScope hchildren))
    (unfoldedHeight_le_scopedHeight node)

end Node

theorem isScopedHeight_scopedHeight (unfold : F → Node F) :
    IsScopedHeight unfold (Node.scopedHeight unfold) where
  empty := Node.scopedHeight_eq le_rfl fun _ => iff_of_true .empty one_le_succ
  text _ := Node.scopedHeight_eq le_rfl fun _ => iff_of_true .text one_le_succ
  producer name := by
    apply Node.scopedHeight_eq le_self_add
    intro levels
    rw [one_add_le_succ, Node.scopedHeight_le]
    exact ⟨fun h => by cases h; assumption, .producer⟩
  collection nodes := by
    apply Node.scopedHeight_eq (le_max_left _ _)
    intro levels
    rw [max_le_iff, iSup₂_le_iff]
    simp only [Node.scopedHeight_le]
    exact ⟨fun h => ⟨one_le_succ, by cases h; assumption⟩, fun h => .collection h.2⟩
  childless e hc := by
    refine Node.scopedHeight_eq le_rfl fun _ => iff_of_true (.element fun n hn => ?_) one_le_succ
    rw [hc] at hn
    cases hn
  element e n hc := by
    apply Node.scopedHeight_eq le_self_add
    intro levels
    rw [one_add_le_succ, Node.scopedHeight_le]
    constructor
    · intro h
      cases h with
      | element below => exact below n hc
    · intro h
      refine .element fun m hm => ?_
      rw [hc] at hm
      cases hm
      exact h

end TreeRender
