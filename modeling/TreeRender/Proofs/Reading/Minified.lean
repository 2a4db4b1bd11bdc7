import TreeRender.Proofs.Minify.Pieces
import TreeRender.Proofs.Minify.Twice
import TreeRender.Proofs.Reading.Tags

/-!
# Minified tokens

Minified markup has the tags of the markup, each as it was, and between them the texts without some
of their blanks. Where the minifier takes a tag for raw text it passes over it, and where it takes a
tag for a tag, what it takes is just the tag.
-/

namespace TreeRender.Reading

open Markup
open Text (isBlank)
open Outline (addRaw)

def unspaced : List Token → List Token
  | [] => []
  | .text raw :: rest => addRaw (raw.filter fun c => !isBlank c) (unspaced rest)
  | t :: rest => t :: unspaced rest

def Token.isTag : Token → Bool
  | .text _ => false
  | .opening .. | .closing _ => true

def tags (tokens : List Token) : List Token := tokens.filter Token.isTag

private theorem unspaced_tag {t : Token} (h : t.isTag = true) (tokens : List Token) :
    unspaced (t :: tokens) = t :: unspaced tokens := by
  cases t with
  | text raw => cases h
  | opening | closing => rfl

private theorem addRaw_nil (tokens : List Token) : addRaw [] tokens = tokens := rfl

private theorem addRaw_addRaw (raw raw' : List Char) (tokens : List Token) :
    addRaw raw (addRaw raw' tokens) = addRaw (raw ++ raw') tokens := by
  by_cases hraw' : raw' = []
  · rw [hraw', addRaw_nil, List.append_nil]
  by_cases hraw : raw = []
  · rw [hraw, addRaw_nil, List.nil_append]
  have hboth : raw ++ raw' ≠ [] := fun h => hraw (List.append_eq_nil_iff.1 h).1
  match tokens with
  | [] => simp only [addRaw, if_neg hraw, if_neg hraw', if_neg hboth]
  | .text more :: rest =>
    simp only [addRaw, if_neg hraw, if_neg hraw', if_neg hboth, List.append_assoc]
  | .opening .. :: _ | .closing _ :: _ =>
    simp only [addRaw, if_neg hraw, if_neg hraw', if_neg hboth]

private theorem tags_addRaw (raw : List Char) (tokens : List Token) :
    tags (addRaw raw tokens) = tags tokens := by
  apply Outline.addRaw_cases (P := fun tokens' => tags tokens' = tags tokens)
  · exact fun _ => rfl
  · rintro more rest - rfl
    rfl
  · exact fun _ _ => rfl

theorem tags_unspaced (tokens : List Token) : tags (unspaced tokens) = tags tokens := by
  induction tokens with
  | nil => rfl
  | cons t rest ih =>
    cases t with
    | text raw => exact (tags_addRaw _ _).trans ih
    | opening tag attributes => exact congrArg (.opening tag attributes :: ·) ih
    | closing tag => exact congrArg (.closing tag :: ·) ih

private theorem unspaced_addRaw (raw : List Char) (tokens : List Token) :
    unspaced (addRaw raw tokens) = addRaw (raw.filter fun c => !isBlank c) (unspaced tokens) := by
  apply Outline.addRaw_cases (P := fun tokens' => unspaced tokens' =
    addRaw (raw.filter fun c => !isBlank c) (unspaced tokens))
  · rintro rfl
    rfl
  · rintro more rest - rfl
    rw [unspaced, unspaced, addRaw_addRaw, List.filter_append]
  · exact fun _ _ => rfl

private theorem inMarkup_addRaw {raw : List Char} (hraw : '<' ∉ raw) {tokens : List Token}
    (h : ∀ t ∈ tokens, t.InMarkup) : ∀ t ∈ addRaw raw tokens, t.InMarkup := by
  apply Outline.addRaw_cases (P := fun tokens => ∀ t ∈ tokens, t.InMarkup)
  · exact fun _ => h
  · rintro more rest hne rfl
    obtain ⟨hmore, hrest⟩ := List.forall_mem_cons.1 h
    refine List.forall_mem_cons.2 ⟨⟨?_, fun hmem => ?_⟩, hrest⟩
    · exact fun hnil => hne (List.append_eq_nil_iff.1 hnil).1
    · exact (List.mem_append.1 hmem).elim hraw hmore.2
  · exact fun hne _ => List.forall_mem_cons.2 ⟨⟨hne, hraw⟩, h⟩

theorem Splits.text {html raw : List Char} (hraw : '<' ∉ raw) {tokens : List Token}
    (h : Splits html tokens) : Splits (raw ++ html) (addRaw raw tokens) where
  inMarkup := inMarkup_addRaw hraw h.inMarkup
  merged := Outline.merged_addRaw raw h.merged
  source := by rw [Outline.source_addRaw, h.source]

theorem Splits.tag {html : List Char} {t : Token} (htag : t.isTag = true) (ht : t.InMarkup)
    {tokens : List Token} (h : Splits html tokens) : Splits (t.source ++ html) (t :: tokens) where
  inMarkup := List.forall_mem_cons.2 ⟨ht, h.inMarkup⟩
  merged := by
    cases t with
    | text raw => cases htag
    | _ => exact h.merged
  source := congrArg (t.source ++ ·) h.source

theorem splits_nil : Splits [] [] := ⟨fun _ h => (nomatch h), trivial, rfl⟩

private theorem isPlain_of_isNameChar {c : Char} (h : isNameChar c = true) : IsPlain c := by
  have differs (d : Char) (hd : isNameChar d = false) : c ≠ d := by
    rintro rfl
    rw [h] at hd
    cases hd
  exact ⟨differs _ (by decide), differs _ (by decide), differs _ (by decide), differs _ (by decide)⟩

private theorem IsName.shut {name : List Char} (h : IsName name) : Shut name :=
  .of_isPlain fun c hc => isPlain_of_isNameChar (h.2 c hc)

private theorem IsAttribute.shut {a : RawAttribute} (h : IsAttribute a) : Shut (attributeSource a)
    := by
  obtain ⟨name, value⟩ := a
  have hspace : Shut [' '] := .of_all (by decide)
  have hvalue : Shut (valueSource value) := by
    cases value with
    | none => exact .nil
    | some value =>
      have hequals : Shut ['='] := .of_all (by decide)
      exact hequals.append (.quoted (h.2 value rfl))
  exact hspace.append (h.1.shut.append hvalue)

private theorem shut_attributes {attributes : List RawAttribute}
    (h : ∀ a ∈ attributes, IsAttribute a) :
    Shut (attributes.flatMap attributeSource) := by
  induction attributes with
  | nil => exact .nil
  | cons a rest ih =>
    obtain ⟨ha, hrest⟩ := List.forall_mem_cons.1 h
    exact ha.shut.append (ih hrest)

private theorem isTag_source {t : Token} (htag : t.isTag = true) (ht : t.InMarkup) : IsTag t.source
    := by
  cases t with
  | text raw => cases htag
  | opening tag attributes =>
    obtain ⟨hname, hattributes⟩ := ht
    cases tag with
    | nil => exact absurd rfl hname.1
    | cons c rest =>
      have hc : c ≠ '!' := by
        rintro rfl
        exact absurd (hname.2 _ List.mem_cons_self) (by decide)
      exact isTag_of_shut hc (hname.shut.append (shut_attributes hattributes))
  | closing tag =>
    have hslash : Shut ['/'] := .of_all (by decide)
    exact isTag_of_shut (by decide) (hslash.append (IsName.shut ht))

/-- What is written for markup, and for the text that is left over behind it. -/
def output (m : Minifier) (markup : List Char) : List Char :=
  (m.feed markup).1 ++ (m.feed markup).2.finish.1

private theorem output_nil (m : Minifier) : output m [] = minifyText m.pending := by
  rw [output, Minifier.feed_nil]
  rfl

private theorem output_text {pending text : List Char} (htag : '<' ∉ text) (after : List Char) :
    output { pending } (text ++ after) = output { pending := pending ++ text } after := by
  induction text generalizing pending with
  | nil => rw [List.append_nil, List.nil_append]
  | cons c text ih =>
    have hc : c ≠ '<' := fun hc => htag (hc ▸ List.mem_cons_self)
    have hfirst : output { pending } (c :: (text ++ after)) =
        output { pending := pending ++ [c] } (text ++ after) := by
      rw [output, Minifier.feed_text rfl hc]
      rfl
    rw [List.cons_append, hfirst, ih fun hmem => htag (List.mem_cons_of_mem c hmem),
      List.append_assoc]
    rfl

private theorem output_rawText {m : Minifier} {r : RawText} (hraw : m.raw = some r)
    {text : List Char}
    (htag : '<' ∉ text) (after : List Char) :
    output m (text ++ after) = text ++ output m after := by
  induction text with
  | nil => rfl
  | cons c text ih =>
    have hc : c ≠ '<' := fun hc => htag (hc ▸ List.mem_cons_self)
    have hfirst : output m (c :: (text ++ after)) = c :: output m (text ++ after) := by
      rw [output, Minifier.feed_skip hraw (Minifier.startsWith_cons hc _)]
      rfl
    rw [List.cons_append, hfirst, ih fun hmem => htag (List.mem_cons_of_mem c hmem)]
    rfl

private theorem output_tag {m : Minifier} (hm : m.raw ≠ none → m.pending = []) {tag : List Char}
    (htag : IsTag tag) (after : List Char) : ∃ m' : Minifier, m'.pending = [] ∧
      output m (tag ++ after) = minifyText m.pending ++ (tag ++ output m' after) := by
  rcases m.feed_tag_cases htag with htaken | ⟨hraw, hpassed⟩
  · refine ⟨{ raw := RawText.ofTag? tag }, rfl, ?_⟩
    rw [output, htaken]
    simp only [output, List.append_assoc]
  · refine ⟨m, hm hraw, ?_⟩
    rw [output, hpassed, hm hraw]
    simp only [output, List.append_assoc]
    rfl

private theorem splits_output {m : Minifier} (hm : m.IsOpen) {tokens : List Token}
    (htokens : ∀ t ∈ tokens, t.InMarkup) : ∃ tokens', Splits (output m (source tokens)) tokens' ∧
      unspaced tokens' = addRaw (m.pending.filter fun c => !isBlank c) (unspaced tokens) := by
  induction tokens generalizing m with
  | nil =>
    have hwritten := notMem_minifyText (by decide) hm.noTag
    refine ⟨addRaw (minifyText m.pending) [], ?_, ?_⟩
    · have hsplits := splits_nil.text hwritten
      rw [List.append_nil] at hsplits
      rw [source, List.flatMap_nil, output_nil]
      exact hsplits
    · rw [unspaced_addRaw, filter_minifyText]
  | cons t rest ih =>
    obtain ⟨ht, hrest⟩ := List.forall_mem_cons.1 htokens
    have hsource : source (t :: rest) = t.source ++ source rest := List.flatMap_cons
    rw [hsource]
    cases htag : t.isTag with
    | true =>
      obtain ⟨m', hm', hwritten⟩ := output_tag hm.empty (isTag_source htag ht) (source rest)
      obtain ⟨tokens', hsplits, hunspaced⟩ := ih (isOpen_of_pending hm') hrest
      rw [hm', List.filter_nil, addRaw_nil] at hunspaced
      rw [hwritten]
      refine ⟨_, (hsplits.tag htag ht).text (notMem_minifyText (by decide) hm.noTag), ?_⟩
      rw [unspaced_addRaw, filter_minifyText, unspaced_tag htag, unspaced_tag htag, hunspaced]
    | false =>
      cases t with
      | opening | closing => cases htag
      | text raw =>
        obtain ⟨pending, state⟩ := m
        cases state with
        | none =>
          have hopen : Minifier.IsOpen { pending := pending ++ raw } :=
            ⟨fun hmem => (List.mem_append.1 hmem).elim hm.noTag ht.2, fun h => absurd rfl h⟩
          obtain ⟨tokens', hsplits, hunspaced⟩ := ih hopen hrest
          rw [Token.source, output_text ht.2]
          refine ⟨tokens', hsplits, ?_⟩
          rw [hunspaced, unspaced, addRaw_addRaw, List.filter_append]
        | some r =>
          obtain rfl : pending = [] := hm.empty (Option.some_ne_none r)
          obtain ⟨tokens', hsplits, hunspaced⟩ := ih hm hrest
          have hraw : Minifier.raw { pending := [], raw := some r } = some r := rfl
          rw [Token.source, output_rawText hraw ht.2]
          refine ⟨_, hsplits.text ht.2, ?_⟩
          rw [unspaced_addRaw, hunspaced, unspaced]
          rfl

theorem Splits.minify {html : String} {tokens : List Token} (h : Splits html.toList tokens) :
    ∃ tokens', Splits (Markup.minify html).toList tokens' ∧ unspaced tokens' = unspaced tokens := by
  have hopen : Minifier.IsOpen {} := isOpen_of_pending rfl
  have houtput : (Markup.minify html).toList = output {} (Reading.source tokens) := by
    rw [h.source]
    exact String.toList_ofList
  rw [houtput]
  exact splits_output hopen h.inMarkup

end TreeRender.Reading
