import TreeRender.Proofs.Signature.Alike

/-!
# Complexity

The complexity of a tree, counted in full, and counting that stops early: it finds out whether the
limit is passed, and it is exact where the limit is not passed.
-/

namespace TreeRender

variable {F : Type}

mutual

def Node.fullComplexity : Node F → Nat
  | .empty => 0
  | .text _ => 1
  | .component _ => 0
  | .collection nodes => 1 + Node.fullComplexities nodes
  | .element ⟨tag, attributes, directive, none, h⟩ =>
    Element.size (⟨tag, attributes, directive, none, h⟩ : Element F (Node F))
  | .element ⟨tag, attributes, directive, some child, h⟩ =>
    Element.size (⟨tag, attributes, directive, some child, h⟩ : Element F (Node F)) +
      child.fullComplexity

def Node.fullComplexities : List (Node F) → Nat
  | [] => 0
  | n :: rest => n.fullComplexity + Node.fullComplexities rest

end

/-- The complexity of an element when counting never stops. -/
def Element.fullComplexity (e : Element F (Node F)) : Nat := (Node.element e).fullComplexity

theorem Node.fullComplexity_element (e : Element F (Node F)) : (Node.element e).fullComplexity =
    e.size + (e.children.map Node.fullComplexity).getD 0 := by
  obtain ⟨tag, attributes, directive, children, h⟩ := e
  cases children <;> rfl

/-- A count towards `full` that may have stopped past the limit, and only there. -/
structure CountsUpTo (limit count full : Nat) : Prop where
  exact : full ≤ limit → count = full
  past : limit < full → limit < count

private theorem CountsUpTo.lt_iff {limit count full : Nat} (h : CountsUpTo limit count full) :
    limit < count ↔ limit < full := by
  constructor
  · intro hcount
    apply Nat.lt_of_not_le
    intro hfull
    have hexact := h.exact hfull
    omega
  · exact h.past

private theorem Node.countsUpTo_addComplexity (n : Node F) (total limit : Nat) :
    CountsUpTo limit (n.addComplexity total limit) (total + n.fullComplexity) := by
  induction n using Node.inductOn generalizing total limit with
  | empty => exact ⟨fun _ => rfl, id⟩
  | component c => exact ⟨fun _ => rfl, id⟩
  | text value =>
    simp only [addComplexity, fullComplexity]
    split
    · exact ⟨fun h => by omega, fun _ => ‹_›⟩
    · exact ⟨fun _ => rfl, id⟩
  | collection nodes ih =>
    have members (total : Nat) : CountsUpTo limit (Node.addComplexities nodes total limit)
        (total + Node.fullComplexities nodes) := by
      induction nodes generalizing total with
      | nil => exact ⟨fun _ => rfl, id⟩
      | cons n rest ihrest =>
        have hn := ih n (by simp) total limit
        have hrest := ihrest (fun m hm => ih m (by simp [hm])) (n.addComplexity total limit)
        rw [Node.addComplexities, Node.fullComplexities]
        refine ⟨fun hfull => ?_, fun hfull => ?_⟩
        · have hcount := hn.exact (by omega)
          have hall := hrest.exact (by omega)
          omega
        · apply hrest.past
          by_cases hfits : total + n.fullComplexity ≤ limit
          · have hcount := hn.exact hfits
            omega
          · have hpast := hn.past (by omega)
            omega
    simp only [addComplexity, fullComplexity]
    split
    · exact ⟨fun h => by omega, fun _ => ‹_›⟩
    · rw [← Nat.add_assoc]
      exact members (total + 1)
  | element e ih =>
    rw [addComplexity_element, fullComplexity_element]
    split
    · exact ⟨fun h => by omega, fun _ => ‹_›⟩
    · rename_i hlimit
      have below : CountsUpTo (limit - total) (e.complexity (limit - total))
          (e.size + (e.children.map Node.fullComplexity).getD 0) := by
        rw [Element.complexity]
        cases hchildren : e.children with
        | none => exact ⟨fun _ => rfl, id⟩
        | some child => exact ih child hchildren e.size (limit - total)
      refine ⟨fun hfull => ?_, fun hfull => ?_⟩
      · have hcount := below.exact (by omega)
        omega
      · have hpast := below.past (by omega)
        omega

theorem Element.countsUpTo_complexity (e : Element F (Node F)) (limit : Nat) :
    CountsUpTo limit (e.complexity limit) e.fullComplexity := by
  have hcounts := (Node.element e).countsUpTo_addComplexity 0 limit
  rw [Node.addComplexity_element, if_neg (Nat.not_lt_zero limit), Nat.zero_add, Nat.zero_add,
    Nat.sub_zero] at hcounts
  exact hcounts

theorem Element.lt_complexity (e : Element F (Node F)) (limit : Nat) :
    limit < e.complexity limit ↔ limit < e.fullComplexity :=
  (e.countsUpTo_complexity limit).lt_iff

end TreeRender
