import Mathlib.Data.List.Chain
import TreeRender.Markup.Minify

/-!
# Collapsed text

What the minifier writes for a text has spaces for its blanks and no two of them side by side, and a
text of that kind is left alone. Texts that are collapsed one by one make such a text together
unless a blank at the end of one meets a blank at the start of the next.
-/

namespace TreeRender.Markup

open Text (isBlank)

def IsSpaced (text : List Char) : Prop := ∀ c ∈ text, isBlank c = true → c = ' '

def Parted (c d : Char) : Prop := ¬(isBlank c = true ∧ isBlank d = true)

private theorem isBlank_space : isBlank ' ' = true := by decide

private theorem isSpaced_collapse (inBlank : Bool) (text : List Char) : IsSpaced
    (collapse inBlank text) := by
  induction text generalizing inBlank with
  | nil => exact fun c hc => nomatch hc
  | cons d rest ih =>
    intro c hc hblank
    rw [collapse] at hc
    split at hc
    · split at hc
      · exact ih true c hc hblank
      · rcases List.mem_cons.1 hc with rfl | hc
        · rfl
        · exact ih true c hc hblank
    · rename_i hd
      rcases List.mem_cons.1 hc with rfl | hc
      · exact absurd hblank hd
      · exact ih false c hc hblank

private theorem filter_collapse (inBlank : Bool) (text : List Char) :
    (collapse inBlank text).filter (fun c => !isBlank c) = text.filter fun c => !isBlank c := by
  induction text generalizing inBlank with
  | nil => rfl
  | cons c rest ih =>
    rw [collapse]
    split
    · rename_i hc
      have hdrop (d : Char) (hd : isBlank d = true) (more : List Char) :
          (d :: more).filter (fun c => !isBlank c) = more.filter fun c => !isBlank c :=
        List.filter_cons_of_neg (by rw [hd]; decide)
      rw [hdrop c hc]
      split
      · exact ih true
      · rw [hdrop ' ' isBlank_space, ih true]
    · rename_i hc
      have hkeep (more : List Char) : (c :: more).filter (fun c => !isBlank c) =
          c :: more.filter fun c => !isBlank c :=
        List.filter_cons_of_pos (by rw [Bool.eq_false_iff.2 hc]; decide)
      rw [hkeep, hkeep, ih false]

private theorem all_isBlank_iff (text : List Char) :
    text.all isBlank = true ↔ text.filter (fun c => !isBlank c) = [] := by
  rw [List.all_eq_true, List.filter_eq_nil_iff]
  simp only [Bool.not_eq_true', Bool.not_eq_false]

private theorem all_isBlank_collapse (inBlank : Bool) (text : List Char) :
    (collapse inBlank text).all isBlank = text.all isBlank := by
  rw [Bool.eq_iff_iff, all_isBlank_iff, filter_collapse, ← all_isBlank_iff]

private theorem isBlank_head_collapse {text : List Char} {c : Char}
    (h : c ∈ (collapse true text).head?) : isBlank c = false := by
  induction text with
  | nil => cases h
  | cons d rest ih =>
    rw [collapse] at h
    split at h
    · exact ih h
    · rename_i hd
      obtain rfl := Option.some.inj h
      exact Bool.eq_false_iff.2 hd

private theorem isChain_collapse (inBlank : Bool) (text : List Char) :
    (collapse inBlank text).IsChain Parted := by
  induction text generalizing inBlank with
  | nil => exact .nil
  | cons c rest ih =>
    rw [collapse]
    split
    · split
      · exact ih true
      · refine List.isChain_cons.2 ⟨fun d hd hboth => ?_, ih true⟩
        rw [isBlank_head_collapse hd] at hboth
        cases hboth.2
    · rename_i hc
      exact List.isChain_cons.2 ⟨fun d _ hboth => hc hboth.1, ih false⟩

private theorem collapse_eq_self {text : List Char} (hspaced : IsSpaced text)
    (hchain : text.IsChain Parted) {inBlank : Bool}
    (hfirst : inBlank = true → ∀ c ∈ text.head?, isBlank c = false) :
    collapse inBlank text = text := by
  induction text generalizing inBlank with
  | nil => rfl
  | cons c rest ih =>
    obtain ⟨hnext, hchain⟩ := List.isChain_cons.1 hchain
    have hrest (inBlank : Bool)
        (hfirst : inBlank = true → ∀ d ∈ rest.head?, isBlank d = false) :
        collapse inBlank rest = rest :=
      ih (fun d hd => hspaced d (List.mem_cons_of_mem _ hd)) hchain hfirst
    rw [collapse]
    split
    · rename_i hc
      cases inBlank with
      | true =>
        rw [hfirst rfl c rfl] at hc
        cases hc
      | false =>
        have hbehind : ∀ d ∈ rest.head?, isBlank d = false := fun d hd =>
          Bool.eq_false_iff.2 fun hblank => hnext d hd ⟨hc, hblank⟩
        rw [if_neg Bool.false_ne_true, hrest true fun _ => hbehind, hspaced c List.mem_cons_self hc]
    · rw [hrest false fun h => nomatch h]

private theorem isBlank_head?_collapse (text : List Char) :
    (collapse false text).head?.any isBlank = text.head?.any isBlank := by
  cases text with
  | nil => rfl
  | cons c rest =>
    rw [collapse]
    split
    · rename_i hc
      exact hc.symm
    · rfl

private theorem collapse_eq_nil {text : List Char} (h : text.all isBlank = true) :
    collapse true text = [] := by
  induction text with
  | nil => rfl
  | cons c rest ih =>
    rw [List.all_cons, Bool.and_eq_true] at h
    rw [collapse, if_pos h.1, if_pos rfl, ih h.2]

private theorem collapse_ne_nil (inBlank : Bool) {text : List Char} (hne : text ≠ [])
    (h : inBlank = true → text.all isBlank = false) : collapse inBlank text ≠ [] := by
  induction text generalizing inBlank with
  | nil => exact absurd rfl hne
  | cons c rest ih =>
    rw [collapse]
    split
    · rename_i hc
      cases inBlank with
      | true =>
        have hrest : rest.all isBlank = false := by
          have hall := h rfl
          rw [List.all_cons, hc, Bool.true_and] at hall
          exact hall
        have hnext : rest ≠ [] := by
          rintro rfl
          cases hrest
        exact ih true hnext fun _ => hrest
      | false => exact List.cons_ne_nil _ _
    · exact List.cons_ne_nil _ _

private theorem isBlank_getLast?_collapse (inBlank : Bool) {text : List Char}
    (h : inBlank = true → text.all isBlank = false) :
    (collapse inBlank text).getLast?.any isBlank = text.getLast?.any isBlank := by
  induction text generalizing inBlank with
  | nil => rfl
  | cons c rest ih =>
    have hbehind {d : Char} {texts : List Char} (hne : texts ≠ []) :
        (d :: texts).getLast? = texts.getLast? := by
      obtain ⟨e, more, rfl⟩ := List.exists_cons_of_ne_nil hne
      exact List.getLast?_cons_cons
    rw [collapse]
    split
    · rename_i hc
      cases hrest : rest.all isBlank with
      | true =>
        -- The text is blank, so that no run has begun before it.
        cases inBlank with
        | true =>
          have hall := h rfl
          rw [List.all_cons, hc, hrest] at hall
          cases hall
        | false =>
          have hall : (c :: rest).all isBlank = true := by rw [List.all_cons, hc, hrest]; rfl
          have hlast := List.all_eq_true.1 hall _ (List.getLast_mem (List.cons_ne_nil c rest))
          rw [if_neg Bool.false_ne_true, collapse_eq_nil hrest,
            List.getLast?_eq_some_getLast (List.cons_ne_nil c rest)]
          exact isBlank_space.trans hlast.symm
      | false =>
        have hne : rest ≠ [] := by
          rintro rfl
          cases hrest
        have hcollapse := ih true fun _ => hrest
        rw [hbehind hne, ← hcollapse]
        cases inBlank with
        | true => rfl
        | false => rw [if_neg Bool.false_ne_true, hbehind (collapse_ne_nil true hne fun _ => hrest)]
    · cases rest with
      | nil => rfl
      | cons d rest =>
        have hne := collapse_ne_nil false (List.cons_ne_nil d rest) fun h => nomatch h
        rw [hbehind hne, hbehind (List.cons_ne_nil d rest), ih false fun h => nomatch h]

theorem filter_minifyText (text : List Char) :
    (minifyText text).filter (fun c => !isBlank c) = text.filter fun c => !isBlank c := by
  unfold minifyText
  split
  · rename_i hall
    exact ((all_isBlank_iff text).1 hall).symm
  · exact filter_collapse false text

theorem notMem_minifyText {c : Char} {text : List Char} (hc : isBlank c = false) (h : c ∉ text) :
    c ∉ minifyText text := by
  intro hmem
  have hfilter : c ∈ text.filter fun c => !isBlank c := by
    rw [← filter_minifyText]
    exact List.mem_filter.2 ⟨hmem, by rw [hc]; rfl⟩
  exact h (List.mem_filter.1 hfilter).1

private theorem isSpaced_minifyText (text : List Char) : IsSpaced (minifyText text) := by
  unfold minifyText
  split
  · exact fun c hc => nomatch hc
  · exact isSpaced_collapse false text

theorem isSpaced_flatMap (texts : List (List Char)) : IsSpaced (texts.flatMap minifyText) := by
  intro c hc hblank
  obtain ⟨text, -, hc⟩ := List.mem_flatMap.1 hc
  exact isSpaced_minifyText text c hc hblank

private theorem sublist_collapse {inBlank : Bool} {text : List Char} (h : IsSpaced text) :
    (collapse inBlank text).Sublist text := by
  induction text generalizing inBlank with
  | nil => exact .slnil
  | cons c rest ih =>
    have hrest (inBlank : Bool) : (collapse inBlank rest).Sublist rest :=
      ih fun d hd => h d (List.mem_cons_of_mem _ hd)
    rw [collapse]
    split
    · rename_i hc
      split
      · exact (hrest true).cons c
      · rw [h c List.mem_cons_self hc]
        exact (hrest true).cons_cons ' '
    · exact (hrest false).cons_cons c

theorem sublist_minifyText {text : List Char} (h : IsSpaced text) :
    (minifyText text).Sublist text := by
  unfold minifyText
  split
  · exact List.nil_sublist _
  · exact sublist_collapse h

/-- Whether no blank at the end of a text meets a blank at the start of the next. Blank texts do
not count, since nothing is written for them. -/
def JoinsWell (texts : List (List Char)) : Prop :=
  (texts.filter fun text => !text.all isBlank).IsChain fun text next =>
    ¬(text.getLast?.any isBlank = true ∧ next.head?.any isBlank = true)

instance (texts : List (List Char)) : Decidable (JoinsWell texts) :=
  inferInstanceAs (Decidable (List.IsChain _ _))

theorem joinsWell_singleton (text : List Char) : JoinsWell [text] := by
  unfold JoinsWell
  rw [List.filter_cons]
  split
  · exact .singleton text
  · exact .nil

private theorem flatMap_minifyText (texts : List (List Char)) : texts.flatMap minifyText =
    ((texts.filter fun text => !text.all isBlank).map (collapse false)).flatten := by
  induction texts with
  | nil => rfl
  | cons text texts ih =>
    rw [List.flatMap_cons, ih, List.filter_cons]
    unfold minifyText
    cases text.all isBlank <;> rfl

private theorem minifyText_eq_self_iff {text : List Char} (hspaced : IsSpaced text)
    (hblank : text.all isBlank = true → text = []) :
    minifyText text = text ↔ text.IsChain Parted := by
  unfold minifyText
  split
  · rename_i hall
    rw [hblank hall]
    exact iff_of_true rfl .nil
  · constructor
    · intro h
      rw [← h]
      exact isChain_collapse false text
    · exact fun h => collapse_eq_self hspaced h nofun

private theorem parted_collapse_iff (text next : List Char) :
    (∀ c ∈ (collapse false text).getLast?, ∀ d ∈ (collapse false next).head?, Parted c d) ↔
      ¬(text.getLast?.any isBlank = true ∧ next.head?.any isBlank = true) := by
  have hlast := @isBlank_getLast?_collapse false text fun h => nomatch h
  rw [← hlast, ← isBlank_head?_collapse next]
  cases (collapse false text).getLast? <;> cases (collapse false next).head? <;>
    simp [Parted]

/-- Texts that are minified one by one can be minified together without a change if and only if no
two of their blanks meet. -/
theorem minifyText_flatMap_iff (texts : List (List Char)) :
    minifyText (texts.flatMap minifyText) = texts.flatMap minifyText ↔ JoinsWell texts := by
  have hspaced := isSpaced_flatMap texts
  unfold JoinsWell
  have hwritten : ∀ text ∈ texts.filter fun text => !text.all isBlank,
      text.all isBlank = false := fun text htext => by
    simpa using (List.mem_filter.1 htext).2
  rw [flatMap_minifyText] at hspaced ⊢
  generalize (texts.filter fun text => !text.all isBlank) = written at hspaced hwritten ⊢
  have hne (text : List Char) (htext : text ∈ written) : text ≠ [] := by
    rintro rfl
    cases hwritten [] htext
  have hblank : (written.map (collapse false)).flatten.all isBlank = true →
      (written.map (collapse false)).flatten = [] := by
    intro hall
    cases written with
    | nil => rfl
    | cons text written =>
      rw [List.map_cons, List.flatten_cons, List.all_append, all_isBlank_collapse,
        hwritten text List.mem_cons_self] at hall
      cases hall
  have hnil : [] ∉ written.map (collapse false) := by
    intro hmem
    obtain ⟨text, htext, hcollapse⟩ := List.mem_map.1 hmem
    exact collapse_ne_nil false (hne text htext) (fun h => nomatch h) hcollapse
  have hchains : ∀ text ∈ written.map (collapse false), text.IsChain Parted := by
    intro text htext
    obtain ⟨inner, -, rfl⟩ := List.mem_map.1 htext
    exact isChain_collapse false inner
  rw [minifyText_eq_self_iff hspaced hblank, List.isChain_flatten hnil, and_iff_right hchains,
    List.isChain_map]
  simp only [parted_collapse_iff]

end TreeRender.Markup
