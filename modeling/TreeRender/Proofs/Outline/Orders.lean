import TreeRender.Proofs.Outline.WellFormed
import TreeRender.Proofs.Signature.Injective

/-!
# The two orders of hydration

With hydration, an opening tag takes the next ids of the registry for its handlers. So the order in
which tags are made shows in the markup, and it does so exactly where an element with handlers
stands inside of another: bottom up the inner one comes first, top down the outer one.
-/

namespace TreeRender

open Markup

variable {F N : Type}

namespace Attribute

def isPublished : Attribute F → Bool
  | .listener event _ => isValidName event
  | _ => false

end Attribute

/-- Whether hydration publishes a handler of the element. -/
def Element.publishes (e : Element F N) : Bool := e.mapped.any Attribute.isPublished

namespace Outline

def publishes : Outline F → Bool
  | .nil => false
  | .text _ rest => rest.publishes
  | .fallback rest => rest.publishes
  | .element e content rest => e.publishes || content.publishes || rest.publishes

/-- Whether an element with published handlers stands inside of another. -/
def nests : Outline F → Bool
  | .nil => false
  | .text _ rest => rest.nests
  | .fallback rest => rest.nests
  | .element e content rest => (e.publishes && content.publishes) || content.nests || rest.nests

end Outline

theorem tagAttribute_silent {a : Attribute F} (h : a.isPublished = false) (r : Registry F) :
    tagAttribute true a r = (attributeText a, r) := by
  cases a with
  | listener event handler => exact tagAttribute_unpublished handler h r
  | _ => rfl

private theorem tagAttributes_unpublished {attributes : List (Attribute F)}
    (h : attributes.any Attribute.isPublished = false) (r : Registry F) :
    tagAttributes true attributes r = (String.join (attributes.map attributeText), r) := by
  induction attributes with
  | nil => rfl
  | cons a rest ih =>
    simp only [List.any_cons, Bool.or_eq_false_iff] at h
    rw [tagAttributes, tagAttribute_silent h.1, List.map_cons, String.join_cons]
    simp only [ih h.2]

theorem openText_unpublished {e : Element F N} (h : e.publishes = false) (r : Registry F) :
    openText true e r = (dryTag e, r) := by
  rw [openText, tagAttributes_unpublished h]
  rfl

private theorem nextId_le_tagAttributes (attributes : List (Attribute F)) (r : Registry F) :
    r.nextId ≤ (tagAttributes true attributes r).2.nextId ∧
      (attributes.any Attribute.isPublished = true →
        r.nextId < (tagAttributes true attributes r).2.nextId) := by
  induction attributes generalizing r with
  | nil => exact ⟨Nat.le_refl _, fun h => nomatch h⟩
  | cons a rest ih =>
    rw [tagAttributes, List.any_cons]
    cases hpublished : a.isPublished with
    | false =>
      simp only [tagAttribute_silent hpublished, Bool.false_or]
      exact ih r
    | true =>
      have hfirst : (tagAttribute true a r).2.nextId = r.nextId + 1 := by
        cases a with
        | listener event handler =>
          rw [tagAttribute_published handler hpublished]
          rfl
        | _ => cases hpublished
      have hrest := (ih (tagAttribute true a r).2).1
      simp only
      exact ⟨by omega, fun _ => by omega⟩

private theorem tagAttributes_inj {attributes : List (Attribute F)}
    (h : attributes.any Attribute.isPublished = true) {r r' : Registry F} {rest rest' : List Char}
    (heq : (tagAttributes true attributes r).1.toList ++ rest =
      (tagAttributes true attributes r').1.toList ++ rest') : r.nextId = r'.nextId := by
  induction attributes generalizing r r' with
  | nil => cases h
  | cons a more ih =>
    rw [tagAttributes, tagAttributes] at heq
    simp only [String.toList_append, List.append_assoc] at heq
    cases hpublished : a.isPublished with
    | false =>
      rw [List.any_cons, hpublished, Bool.false_or] at h
      simp only [tagAttribute_silent hpublished, List.append_cancel_left_eq] at heq
      exact ih h heq
    | true =>
      cases a with
      | listener event handler =>
        have hevent : isValidName event = true := hpublished
        have hquote : "\"".toList = ['"'] := by decide
        have hid (id : Nat) : (ActionId.text id).toList = 'a' :: Nat.toDigits 10 id := by
          rw [ActionId.text, String.toList_ofList]
        simp only [tagAttribute, hevent, Bool.and_true, if_true, String.toList_append,
          List.append_assoc, List.append_cancel_left_eq, hquote, hid, List.cons_append,
          List.nil_append, List.cons.injEq, true_and] at heq
        have hdigits (n : Nat) : '"' ∉ Nat.toDigits 10 n := Signature.notMem_toDigits (by decide) n
        exact Signature.toDigits_inj (Signature.append_cons_inj (hdigits _) (hdigits _) heq).1
      | _ => cases hpublished

private theorem openText_inj {e : Element F N} (h : e.publishes = true) {r r' : Registry F}
    {rest rest' : List Char}
    (heq : (openText true e r).1.toList ++ rest = (openText true e r').1.toList ++ rest') :
    r.nextId = r'.nextId := by
  simp only [openText, String.toList_append, List.append_assoc, List.append_cancel_left_eq] at heq
  exact tagAttributes_inj h heq

namespace Outline

variable {fallback : String}

private theorem orders_of_unpublished {o : Outline F} (h : o.publishes = false) (r : Registry F) :
    o.bottomUp true fallback r = (o.markup fallback, r) ∧
      o.topDown true fallback r = (o.markup fallback, r) := by
  induction o generalizing r with
  | nil => exact ⟨rfl, rfl⟩
  | text content rest ih => simp only [bottomUp, topDown, markup, ih h, and_self]
  | fallback rest ih => simp only [bottomUp, topDown, markup, ih h, and_self]
  | element e content rest ihc ih =>
    simp only [publishes, Bool.or_eq_false_iff] at h
    simp only [bottomUp, topDown, markup, ihc h.1.2, ih h.2, openText_unpublished h.1.1, and_self]

private theorem nests_of_unpublished {o : Outline F} (h : o.publishes = false) : o.nests = false
    := by
  induction o with
  | nil => rfl
  | text content rest ih => exact ih h
  | fallback rest ih => exact ih h
  | element e content rest ihc ih =>
    simp only [publishes, Bool.or_eq_false_iff] at h
    simp only [nests, h.1.1, ihc h.1.2, ih h.2, Bool.false_and, Bool.or_false]

theorem orders_agree {o : Outline F} (h : o.nests = false) (r : Registry F) :
    o.topDown true fallback r = o.bottomUp true fallback r := by
  induction o generalizing r with
  | nil => rfl
  | text content rest ih => simp only [bottomUp, topDown, ih h]
  | fallback rest ih => simp only [bottomUp, topDown, ih h]
  | element e content rest ihc ih =>
    simp only [nests, Bool.or_eq_false_iff, Bool.and_eq_false_iff] at h
    obtain ⟨⟨hown, hcontent⟩, hrest⟩ := h
    rcases hown with he | hc
    · simp only [bottomUp, topDown, openText_unpublished he, ihc hcontent, ih hrest]
    · simp only [bottomUp, topDown, orders_of_unpublished hc, ih hrest]

private theorem nextId_bottomUp (o : Outline F) (r : Registry F) :
    r.nextId ≤ (o.bottomUp true fallback r).2.nextId ∧
      (o.publishes = true → r.nextId < (o.bottomUp true fallback r).2.nextId) := by
  induction o generalizing r with
  | nil => exact ⟨Nat.le_refl _, fun h => nomatch h⟩
  | text content rest ih => exact ih r
  | fallback rest ih => exact ih r
  | element e content rest ihc ih =>
    have hcontent := ihc r
    have hopening := nextId_le_tagAttributes e.mapped (content.bottomUp true fallback r).2
    have hrest := ih (openText true e (content.bottomUp true fallback r).2).2
    simp only [bottomUp, publishes, Bool.or_eq_true]
    change _ ∧ (e.publishes = true → _) at hopening
    have hopen : (openText true e (content.bottomUp true fallback r).2).2 =
      (tagAttributes true e.mapped (content.bottomUp true fallback r).2).2 := rfl
    rw [hopen] at hrest ⊢
    refine ⟨by omega, ?_⟩
    rintro ((hp | hp) | hp)
    · have := hopening.2 hp
      omega
    · have := hcontent.2 hp
      omega
    · have := hrest.2 hp
      omega

/-- The markup shows in which order it was written, if an element with published handlers stands
inside of another: at the first such element in document order, the ids differ. -/
theorem orders_inj {o : Outline F} (hwell : o.WellFormed) {r : Registry F} {rest rest' : List Char}
    (h : (o.topDown true fallback r).1.toList ++ rest =
      (o.bottomUp true fallback r).1.toList ++ rest') : o.nests = false ∧ rest = rest' := by
  induction o generalizing r rest rest' with
  | nil => exact ⟨rfl, h⟩
  | text content more ih =>
    simp only [topDown, bottomUp, String.toList_append, List.append_assoc,
      List.append_cancel_left_eq] at h
    exact ih hwell h
  | fallback more ih =>
    simp only [topDown, bottomUp, String.toList_append, List.append_assoc,
      List.append_cancel_left_eq] at h
    exact ih hwell h
  | element e content more ihc ih =>
    obtain ⟨-, hvoid, hcontent, hmore⟩ := hwell
    simp only [topDown, bottomUp, String.toList_append, List.append_assoc] at h
    cases he : e.publishes with
    | true =>
      -- The ids of `e` are the next of the registry, or the next after those inside of `e`.
      have hids := openText_inj he h
      have hquiet : content.publishes = false := by
        cases hp : content.publishes with
        | false => rfl
        | true =>
          have hlt : r.nextId < (content.bottomUp true fallback r).2.nextId :=
            (nextId_bottomUp content r).2 hp
          omega
      simp only [(orders_of_unpublished hquiet _).1, (orders_of_unpublished hquiet _).2,
        List.append_cancel_left_eq] at h
      obtain ⟨hnests, hrest⟩ := ih hmore h
      refine ⟨?_, hrest⟩
      simp only [nests, hquiet, nests_of_unpublished hquiet, hnests, Bool.and_false, Bool.or_false]
    | false =>
      simp only [openText_unpublished he, List.append_cancel_left_eq] at h
      have hsame : content.nests = false ∧
          (more.topDown true fallback (content.topDown true fallback r).2).1.toList ++ rest =
            (more.bottomUp true fallback (content.bottomUp true fallback r).2).1.toList ++ rest' := by
        cases hv : isVoid e.tag with
        | true =>
          obtain rfl := hvoid hv
          simp only [bodyText, hv, if_true, List.append_cancel_left_eq] at h
          exact ⟨rfl, h⟩
        | false =>
          simp only [bodyText, hv, Bool.false_eq_true, if_false, String.toList_append,
            List.append_assoc] at h
          obtain ⟨hnests, htail⟩ := ihc hcontent h
          exact ⟨hnests, List.append_cancel_left htail⟩
      obtain ⟨hnests, htail⟩ := hsame
      rw [orders_agree hnests] at htail
      obtain ⟨hnestsMore, hrest⟩ := ih hmore htail
      refine ⟨?_, hrest⟩
      simp only [nests, he, hnests, hnestsMore, Bool.false_and, Bool.or_false]

end Outline

end TreeRender
