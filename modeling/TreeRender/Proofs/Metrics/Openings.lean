import TreeRender.Proofs.Outline.WellFormed
import TreeRender.Proofs.Reading.Minified

/-!
# Opening tags

How many opening tags stand in a text, whatever markup comes behind it. Each element has one, void
or not, and nothing else has: texts are escaped, and in a fallback no tag begins.
-/

namespace TreeRender

open Markup Reading

variable {F N : Type}

namespace Reading

def Token.isOpening : Token → Bool
  | .opening .. => true
  | .closing _ | .text _ => false

def openings (tokens : List Token) : Nat := tokens.countP Token.isOpening

private theorem openings_addRaw (raw : List Char) (tokens : List Token) :
    openings (Outline.addRaw raw tokens) = openings tokens := by
  apply Outline.addRaw_cases (P := fun tokens' => openings tokens' = openings tokens)
  · exact fun _ => rfl
  · rintro more rest - rfl
    rfl
  · exact fun _ _ => rfl

/-- In front of any markup, the text adds `n` opening tags. -/
def Opens (text : String) (n : Nat) : Prop :=
  ∀ html tokens, Splits html tokens →
    ∃ tokens', Splits (text.toList ++ html) tokens' ∧ openings tokens' = n + openings tokens

namespace Opens

variable {s t : String} {n m : Nat}

theorem empty : Opens "" 0 := fun _ tokens h => ⟨tokens, h, (Nat.zero_add _).symm⟩

theorem append (hs : Opens s n) (ht : Opens t m) : Opens (s ++ t) (n + m) := by
  intro html tokens h
  obtain ⟨behind, hbehind, hm⟩ := ht html tokens h
  obtain ⟨all, hall, hn⟩ := hs _ behind hbehind
  rw [String.toList_append, List.append_assoc]
  exact ⟨all, hall, by rw [hn, hm, Nat.add_assoc]⟩

theorem text (h : '<' ∉ t.toList) : Opens t 0 := fun _ tokens hsplits =>
  ⟨_, hsplits.text h, by rw [openings_addRaw, Nat.zero_add]⟩

theorem escape (content : String) : Opens (Markup.escape content) 0 := by
  apply text
  rw [Markup.escape, String.toList_ofList]
  exact fun hmem => (isPlain_of_mem_escapeChars hmem).1 rfl

private theorem openText {e : Element F N} (h : isValidName e.tag = true) (hydrate : Bool)
    (r : Registry F) : Opens (openText hydrate e r).1 1 := by
  intro html tokens hsplits
  rw [← source_openingToken]
  refine ⟨_, hsplits.tag rfl (inGrammar_openingToken h _).inMarkup, ?_⟩
  exact (List.countP_cons_of_pos rfl).trans (Nat.add_comm _ _)

private theorem closeTag {tag : String} (h : isValidName tag = true) : Opens (closeTag tag) 0 := by
  intro html tokens hsplits
  have hclosing : (Token.closing tag.toList).InMarkup := isName_of_isValidName h
  rw [← Outline.source_closing, Nat.zero_add]
  exact ⟨_, hsplits.tag rfl hclosing, List.countP_cons_of_neg Bool.false_ne_true⟩

theorem element {e : Element F N} (hvalid : isValidName e.tag = true)
    (hvoid : isVoid e.tag = true → t = "") (h : Opens t n) (hydrate : Bool) (r : Registry F) :
    Opens ((Markup.openText hydrate e r).1 ++ bodyText e t) (n + 1) := by
  have hbody : Opens (bodyText e t) n := by
    unfold bodyText
    cases hv : isVoid e.tag with
    | true =>
      rw [hvoid hv] at h
      exact h
    | false => exact h.append (closeTag hvalid)
  rw [Nat.add_comm]
  exact (openText hvalid hydrate r).append hbody

theorem splits (h : Opens t n) :
    ∃ tokens, Splits t.toList tokens ∧ openings tokens = n := by
  obtain ⟨tokens, hsplits, hn⟩ := h _ _ splits_nil
  rw [List.append_nil] at hsplits
  exact ⟨tokens, hsplits, hn⟩

end Opens

end Reading

private theorem Outline.WellFormed.opens {o : Outline F} (h : o.WellFormed) {fallback : String}
    (hfallback : '<' ∉ fallback.toList) : Opens (o.markup fallback) o.elements.length := by
  induction o with
  | nil => exact .empty
  | text content rest ih =>
    rw [elements, ← Nat.zero_add rest.elements.length]
    exact (Opens.escape content).append (ih h)
  | fallback rest ih =>
    rw [elements, ← Nat.zero_add rest.elements.length]
    exact (Opens.text hfallback).append (ih h)
  | element e content rest ihc ih =>
    obtain ⟨hvalid, hvoid, hcontent, hrest⟩ := h
    have hempty (hv : isVoid e.tag = true) : content.markup fallback = "" := by
      rw [hvoid hv]
      rfl
    have hopens := ((ihc hcontent).element hvalid hempty false {}).append (ih hrest)
    rw [openText_dry] at hopens
    rw [elements, List.length_cons, List.length_append, Nat.add_right_comm]
    exact hopens

private theorem wellFormed_directiveOutline (directive : Option (Directive F)) :
    (directiveOutline directive).WellFormed := by
  cases directive with
  | none => trivial
  | some directive => cases directive <;> trivial

private theorem Element.wellFormed_outline (e : Element F (Node F))
    (h : ∀ child, e.children = some child → child.outline.WellFormed) : e.outline.WellFormed := by
  cases hvalid : isValidName e.tag with
  | false =>
    rw [e.outline_invalid hvalid]
    trivial
  | true =>
    rw [e.outline_eq hvalid]
    refine ⟨hvalid, fun hvoid => if_pos hvoid, ?_, trivial⟩
    split
    · trivial
    · apply (wellFormed_directiveOutline e.text).append
      cases hc : e.children with
      | none => trivial
      | some child => exact h child hc

private theorem Node.wellFormed_outline (n : Node F) : n.outline.WellFormed := by
  induction n using Node.inductOn with
  | empty => trivial
  | text value => trivial
  | component c => trivial
  | collection nodes ih =>
    rw [Node.outline]
    induction nodes with
    | nil => trivial
    | cons n rest ihrest => exact (ih n (by simp)).append (ihrest fun m hm => ih m (by simp [hm]))
  | element e ih => exact e.wellFormed_outline ih

theorem Element.opens_plainMarkup {e : Element F (Node F)} (h : isValidName e.tag = true) :
    ∃ n, Opens e.plainMarkup (n + 1) := by
  have hopens : Opens e.plainMarkup e.outline.elements.length :=
    (Node.element e).wellFormed_outline.opens List.not_mem_nil
  rw [e.outline_eq h] at hopens
  exact ⟨_, hopens⟩

end TreeRender
