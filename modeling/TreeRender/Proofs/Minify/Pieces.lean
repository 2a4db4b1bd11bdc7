import TreeRender.Proofs.Markup.Escape
import TreeRender.Proofs.Minify.Whole
import TreeRender.Proofs.Outline.FunctionFree

/-!
# Markup in whole pieces

What is written for a text, for a tag or for a tree without functions can be given to the minifier
on its own. Names hold no character that means something in a tag, and escaping leaves none in
texts.
-/

namespace TreeRender.Markup

variable {F N : Type}

theorem isPlain_of_isValidName {name : String} (h : isValidName name = true) {c : Char}
    (hc : c ∈ name.toList) : IsPlain c := by
  have hname : isNameChar c = true := by
    simp only [isValidName, Bool.and_eq_true] at h
    exact List.all_eq_true.1 h.2 c hc
  have differs (d : Char) (hd : isNameChar d = false) : c ≠ d := by
    rintro rfl
    rw [hname] at hd
    cases hd
  exact ⟨differs _ (by decide), differs _ (by decide), differs _ (by decide), differs _ (by decide)⟩

/-- A part of a tag that neither ends it nor leaves a quotation open. -/
structure Shut (xs : List Char) : Prop where
  noTag : '<' ∉ xs
  passes : ∀ rest, splitTag? none (xs ++ rest) =
    (splitTag? none rest).map fun (tag, after) => (xs ++ tag, after)

namespace Shut

theorem nil : Shut [] where
  noTag := List.not_mem_nil
  passes rest := by simp

theorem append {xs ys : List Char} (hx : Shut xs) (hy : Shut ys) : Shut (xs ++ ys) where
  noTag h := (List.mem_append.1 h).elim hx.noTag hy.noTag
  passes rest := by
    rw [List.append_assoc, hx.passes, hy.passes, Option.map_map]
    cases splitTag? none rest with
    | none => rfl
    | some parts => simp

theorem of_isPlain {xs : List Char} (h : ∀ c ∈ xs, IsPlain c) : Shut xs := by
  induction xs with
  | nil => exact nil
  | cons c xs ih =>
    obtain ⟨htag, hend, hdouble, hsingle⟩ := h c List.mem_cons_self
    have hrest := ih fun d hd => h d (List.mem_cons_of_mem _ hd)
    refine ⟨fun hmem => ?_, fun rest => ?_⟩
    · rcases List.mem_cons.1 hmem with hc | hmem
      · exact htag hc.symm
      · exact hrest.noTag hmem
    · rw [List.cons_append, splitTag?, if_neg hend]
      simp only [hdouble, hsingle, decide_false, Bool.or_self, Bool.false_eq_true, if_false,
        hrest.passes, Option.map_map]
      cases splitTag? none rest <;> rfl

theorem of_all {xs : List Char} (h : xs.all (IsPlain ·) = true) : Shut xs :=
  of_isPlain fun _ hc => isPlain_of_all h hc

theorem quoted {value : List Char} (h : ∀ c ∈ value, IsPlain c) : Shut ('"' :: value ++ ['"']) := by
  have inside (xs : List Char) (h : ∀ c ∈ xs, IsPlain c) (rest : List Char) :
      splitTag? (some '"') (xs ++ '"' :: rest) =
        (splitTag? none rest).map fun (tag, after) => (xs ++ '"' :: tag, after) := by
    induction xs with
    | nil => rfl
    | cons c xs ih =>
      have hc := (h c List.mem_cons_self).2.2.1
      rw [List.cons_append, splitTag?, if_neg hc, ih fun d hd => h d (List.mem_cons_of_mem _ hd),
        Option.map_map]
      rfl
  refine ⟨fun hmem => ?_, fun rest => ?_⟩
  · simp only [List.cons_append, List.mem_cons, List.mem_append] at hmem
    rcases hmem with hmem | hmem | hmem | hmem
    · exact absurd hmem (by decide)
    · exact (h _ hmem).1 rfl
    · exact absurd hmem (by decide)
    · cases hmem
  · rw [List.cons_append, List.cons_append, List.append_assoc, splitTag?, if_neg (by decide)]
    simp only [List.singleton_append, decide_true, Bool.true_or, if_true, inside value h,
      Option.map_map]
    cases splitTag? none rest <;> simp

end Shut

private theorem shut_listener {event : String} (h : isValidName event = true) (id : Nat) :
    Shut (" data-action-" ++ event ++ "=\"" ++ ActionId.text id ++ "\"").toList := by
  have hid : ∀ c ∈ (ActionId.text id).toList, IsPlain c := by
    intro c hc
    rw [ActionId.text, String.toList_ofList] at hc
    rcases List.mem_cons.1 hc with rfl | hc
    · decide
    · have hdigit := Nat.isDigit_of_mem_toDigits (b := 10) (by decide) (by decide) hc
      have differs (d : Char) (hd : d.isDigit = false) : c ≠ d := by
        rintro rfl
        rw [hdigit] at hd
        cases hd
      exact ⟨differs _ (by decide), differs _ (by decide), differs _ (by decide),
        differs _ (by decide)⟩
  have hlead : Shut " data-action-".toList := .of_all (by decide)
  have hname : Shut event.toList := .of_isPlain fun c hc => isPlain_of_isValidName h hc
  have hequals : Shut ['='] := .of_all (by decide)
  have hall := ((hlead.append hname).append hequals).append (.quoted hid)
  have hchars : "=\"".toList = ['=', '"'] ∧ "\"".toList = ['"'] := by decide
  simp only [String.toList_append, hchars, List.append_assoc, List.cons_append,
    List.nil_append] at hall ⊢
  exact hall

private theorem shut_attributeText (a : Attribute F) : Shut (attributeText a).toList := by
  cases a with
  | value name text =>
    simp only [attributeText]
    split
    · rename_i hname
      have hspace : Shut [' '] := .of_all (by decide)
      have hchars : Shut name.toList := .of_isPlain fun c hc => isPlain_of_isValidName hname hc
      have hequals : Shut ['='] := .of_all (by decide)
      have hvalue : Shut ('"' :: escapeChars text.toList ++ ['"']) :=
        .quoted fun c hc => isPlain_of_mem_escapeChars hc
      have hall := ((hspace.append hchars).append hequals).append hvalue
      have hparts : " ".toList = [' '] ∧ "=\"".toList = ['=', '"'] ∧ "\"".toList = ['"'] := by
        decide
      simp only [escape, String.toList_append, String.toList_ofList, hparts, List.append_assoc,
        List.cons_append, List.nil_append] at hall ⊢
      exact hall
    · exact Shut.nil
  | present name =>
    simp only [attributeText]
    split
    · rename_i hname
      have hspace : Shut [' '] := .of_all (by decide)
      have hchars : Shut name.toList := .of_isPlain fun c hc => isPlain_of_isValidName hname hc
      rw [String.toList_append]
      exact hspace.append hchars
    · exact Shut.nil
  | listener event handler => exact Shut.nil

private theorem shut_tagAttributes (hydrate : Bool) (attributes : List (Attribute F))
    (r : Registry F) :
    Shut (tagAttributes hydrate attributes r).1.toList := by
  induction attributes generalizing r with
  | nil => exact Shut.nil
  | cons a rest ih =>
    have hfirst : Shut (tagAttribute hydrate a r).1.toList := by
      cases a with
      | listener event handler =>
        simp only [tagAttribute]
        split
        · rename_i hpublished
          exact shut_listener (Bool.and_eq_true_iff.1 hpublished).2 _
        · exact Shut.nil
      | _ => exact shut_attributeText _
    rw [tagAttributes]
    simp only [String.toList_append]
    exact hfirst.append (ih _)

theorem isTag_of_shut {c : Char} {body : List Char} (hc : c ≠ '!') (h : Shut (c :: body)) :
    IsTag ('<' :: c :: body ++ ['>']) where
  starts := by
    refine ⟨c, body ++ ['>'], rfl, hc, fun hmem => ?_⟩
    rw [← List.cons_append] at hmem
    rcases List.mem_append.1 hmem with hmem | hmem
    · exact h.noTag hmem
    · simp at hmem
  ends after := by
    have hrest : splitTag? none (c :: body ++ '>' :: after) = some (c :: body ++ ['>'], after) := by
      rw [h.passes]
      rfl
    have hopen (rest : List Char) : splitTag? none ('<' :: rest) =
        (splitTag? none rest).map fun (tag, after) => ('<' :: tag, after) := rfl
    have hall : '<' :: c :: body ++ ['>'] ++ after = '<' :: (c :: body ++ '>' :: after) := by simp
    rw [hall, hopen, hrest]
    rfl

private theorem shut_name {name : String} (h : isValidName name = true) :
    ∃ c rest, name.toList = c :: rest ∧ c ≠ '!' ∧ Shut (c :: rest) := by
  have hshut : Shut name.toList := .of_isPlain fun c hc => isPlain_of_isValidName h hc
  simp only [isValidName, Bool.and_eq_true] at h
  cases hname : name.toList with
  | nil => simp [hname] at h
  | cons c rest =>
    refine ⟨c, rest, rfl, ?_, hname ▸ hshut⟩
    rintro rfl
    have hchar := List.all_eq_true.1 h.2 '!' (hname ▸ List.mem_cons_self)
    exact absurd hchar (by decide)

private theorem isTag_openText {e : Element F N} (h : isValidName e.tag = true) (hydrate : Bool)
    (r : Registry F) : IsTag (openText hydrate e r).1.toList := by
  obtain ⟨c, rest, hname, hc, hshut⟩ := shut_name h
  have htag := isTag_of_shut hc (hshut.append (shut_tagAttributes hydrate e.mapped r))
  have hparts : "<".toList = ['<'] ∧ ">".toList = ['>'] := by decide
  simp only [openText, String.toList_append, hparts, hname]
  exact htag

private theorem isTag_closeTag {tag : String} (h : isValidName tag = true) :
    IsTag (closeTag tag).toList := by
  have hslash : Shut ['/'] := .of_all (by decide)
  have hname : Shut tag.toList := .of_isPlain fun c hc => isPlain_of_isValidName h hc
  have htag := isTag_of_shut (by decide) (hslash.append hname)
  have hparts : "</".toList = ['<', '/'] ∧ ">".toList = ['>'] := by decide
  simp only [closeTag, String.toList_append, hparts]
  exact htag

theorem whole_escape (text : String) : Whole (escape text).toList := by
  rw [escape, String.toList_ofList]
  exact .of_notMem fun hmem => (isPlain_of_mem_escapeChars hmem).1 rfl

theorem whole_openText {e : Element F N} (h : isValidName e.tag = true) (hydrate : Bool)
    (r : Registry F) : Whole (openText hydrate e r).1.toList :=
  .of_isTag (isTag_openText h hydrate r)

theorem whole_closeTag {tag : String} (h : isValidName tag = true) :
    Whole (closeTag tag).toList :=
  .of_isTag (isTag_closeTag h)

theorem whole_join {texts : List String} (h : ∀ t ∈ texts, Whole t.toList) :
    Whole (String.join texts).toList := by
  induction texts with
  | nil => exact .nil
  | cons t rest ih =>
    rw [String.join_cons, String.toList_append]
    exact (h t List.mem_cons_self).append (ih fun m hm => h m (List.mem_cons_of_mem _ hm))

private theorem whole_dryTag {e : Element F N} (h : isValidName e.tag = true) :
    Whole (dryTag e).toList := by
  have hwritten := whole_openText h false {}
  rw [openText_dry] at hwritten
  exact hwritten

private theorem whole_text (text : String) :
    Whole ((.text text .nil : Outline F).markup "").toList := by
  rw [Outline.markup, Outline.markup, String.append_empty]
  exact whole_escape text

private theorem whole_directiveOutline (directive : Option (Directive F)) :
    Whole ((directiveOutline directive).markup "").toList := by
  cases directive with
  | none => exact .nil
  | some directive =>
    cases directive with
    | computed name => exact .nil
    | literal text => exact whole_text text

theorem whole_outline (n : Node F) : Whole (n.outline.markup "").toList := by
  induction n using Node.inductOn with
  | empty => exact .nil
  | text value => exact whole_text value.text
  | component c => exact .nil
  | collection nodes ih =>
    rw [Node.outline]
    induction nodes with
    | nil => exact .nil
    | cons n rest ihrest =>
      rw [Node.outlines, Outline.markup_append, String.toList_append]
      exact (ih n (by simp)).append (ihrest fun m hm => ih m (by simp [hm]))
  | element e ih =>
    change Whole (e.outline.markup "").toList
    cases hvalid : isValidName e.tag with
    | false =>
      rw [e.outline_invalid hvalid]
      exact .nil
    | true =>
      have hchildren : Whole ((childrenOutline e.children).markup "").toList := by
        cases hc : e.children with
        | none => exact .nil
        | some child => exact ih child hc
      rw [e.outline_eq hvalid]
      simp only [Outline.markup, bodyText, String.append_empty]
      rw [String.toList_append]
      apply (whole_dryTag hvalid).append
      cases isVoid e.tag with
      | true => exact .nil
      | false =>
        simp only [Bool.false_eq_true, if_false, Outline.markup_append, String.toList_append]
        have hcontent := (whole_directiveOutline e.text).append hchildren
        exact hcontent.append (whole_closeTag hvalid)

end TreeRender.Markup
