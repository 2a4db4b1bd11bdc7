import TreeRender.Proofs.Dom.Html
import TreeRender.Proofs.Outline.WellFormed
import TreeRender.Proofs.Reading.Tokens

/-!
# Documents

What markup says, once its tags are paired and its entities are read: texts and elements in document
order. The markup of an outline says just what the outline does, so nothing in a text, a value or a
name can pass for anything else.
-/

namespace TreeRender

open Markup

variable {F N : Type}

namespace Reading

/-- A sequence of texts and elements. An attribute may have no value. -/
inductive Document where
  | nil
  | text (content : String) (rest : Document)
  | element (tag : String) (attributes : List (String × Option String)) (content rest : Document)
  deriving DecidableEq

/-- A text before a document, joined to one that the document begins with. An empty text leaves
nothing. -/
def Document.addText (content : String) (d : Document) : Document :=
  if content = "" then d
  else
    match d with
    | .text more rest => .text (content ++ more) rest
    | d => .text content d

private theorem Document.addText_addText (a b : String) (d : Document) :
    addText a (addText b d) = addText (a ++ b) d := by
  by_cases hb : b = ""
  · rw [addText.eq_def b, if_pos hb, hb, String.append_empty]
  by_cases ha : a = ""
  · rw [addText.eq_def a, if_pos ha, ha, String.empty_append]
  have hab : ¬a ++ b = "" := by
    intro h
    have hlist := congrArg String.toList h
    rw [String.toList_append] at hlist
    exact ha (String.toList_inj.1 (List.append_eq_nil_iff.1 hlist).1)
  cases d <;> simp only [addText, if_neg ha, if_neg hb, if_neg hab, String.append_assoc]

def decode (raw : List Char) : String := unescape (String.ofList raw)

def decodeAttribute (a : RawAttribute) : String × Option String :=
  (String.ofList a.1, a.2.map decode)

/-- The document that tokens begin with, and the closing tags after it whose opening tags have not
come yet, each with the document behind it. -/
def build : List Token → Option (Document × List (List Char × Document))
  | [] => some (.nil, [])
  | .text raw :: rest => do
    let (d, pending) ← build rest
    return (d.addText (decode raw), pending)
  | .closing tag :: rest => do
    let (d, pending) ← build rest
    if isVoid (String.ofList tag) then none else some (.nil, (tag, d) :: pending)
  | .opening tag attributes :: rest => do
    let (d, pending) ← build rest
    let element := Document.element (String.ofList tag) (attributes.map decodeAttribute)
    if isVoid (String.ofList tag) then some (element .nil d, pending)
    else
      match pending with
      | [] => none
      | (closed, behind) :: pending =>
        if closed = tag then some (element d behind, pending) else none

/-- The document that tokens make up, if every element is closed where it should be. -/
def document? (tokens : List Token) : Option Document :=
  match build tokens with
  | some (d, []) => some d
  | _ => none

end Reading

open Reading

def Element.written (e : Element F N) : List (String × Option String) :=
  e.mapped.filterMap Attribute.stored?

namespace Outline

def document (fallback : String) : Outline F → Document
  | .nil => .nil
  | .text content rest => (rest.document fallback).addText content
  | .fallback rest => (rest.document fallback).addText fallback
  | .element e content rest =>
    .element e.tag e.written (content.document fallback) (rest.document fallback)

def addRaw (raw : List Char) (tokens : List Token) : List Token :=
  if raw = [] then tokens
  else
    match tokens with
    | .text more :: rest => .text (raw ++ more) :: rest
    | tokens => .text raw :: tokens

def rawAttribute (a : String × Option String) : RawAttribute :=
  (a.1.toList, a.2.map fun value => escapeChars value.toList)

def tokens (fallback : String) : Outline F → List Token → List Token
  | .nil, after => after
  | .text content rest, after => addRaw (escapeChars content.toList) (rest.tokens fallback after)
  | .fallback rest, after => addRaw (escapeChars fallback.toList) (rest.tokens fallback after)
  | .element e content rest, after =>
    .opening e.tag.toList (e.written.map rawAttribute) ::
      if isVoid e.tag then rest.tokens fallback after
      else content.tokens fallback (.closing e.tag.toList :: rest.tokens fallback after)

theorem addRaw_cases {P : List Token → Prop} {raw : List Char} {tokens : List Token}
    (nil : raw = [] → P tokens)
    (joined : ∀ more rest, raw ≠ [] → tokens = .text more :: rest → P (.text (raw ++ more) :: rest))
    (apart : raw ≠ [] → startsWithText tokens = false → P (.text raw :: tokens)) :
    P (addRaw raw tokens) := by
  unfold addRaw
  by_cases hraw : raw = []
  · rw [if_pos hraw]
    exact nil hraw
  · rw [if_neg hraw]
    match tokens with
    | [] => exact apart hraw rfl
    | .text more :: rest => exact joined more rest hraw rfl
    | .opening .. :: _ => exact apart hraw rfl
    | .closing .. :: _ => exact apart hraw rfl

theorem source_addRaw (raw : List Char) (tokens : List Token) :
    source (addRaw raw tokens) = raw ++ source tokens := by
  apply addRaw_cases (P := fun tokens' => source tokens' = raw ++ source tokens)
  · rintro rfl
    rfl
  · rintro more rest - rfl
    simp only [source, List.flatMap_cons, Token.source, List.append_assoc]
  · intro _ _
    rfl

theorem merged_addRaw (raw : List Char) {tokens : List Token} (h : Merged tokens) :
    Merged (addRaw raw tokens) := by
  apply addRaw_cases
  · exact fun _ => h
  · rintro more rest - rfl
    exact h
  · exact fun _ hstart => ⟨hstart, h⟩

private theorem inGrammar_addRaw {raw : List Char} (hraw : IsValue raw) {tokens : List Token}
    (h : ∀ t ∈ tokens, t.InGrammar) : ∀ t ∈ addRaw raw tokens, t.InGrammar := by
  apply addRaw_cases (P := fun tokens => ∀ t ∈ tokens, t.InGrammar)
  · exact fun _ => h
  · rintro more rest hne rfl
    obtain ⟨hmore, hrest⟩ := List.forall_mem_cons.1 h
    refine List.forall_mem_cons.2 ⟨⟨?_, fun c hc => ?_⟩, hrest⟩
    · exact fun hnil => hne (List.append_eq_nil_iff.1 hnil).1
    · rcases List.mem_append.1 hc with hc | hc
      · exact hraw c hc
      · exact hmore.2 c hc
  · exact fun hne _ => List.forall_mem_cons.2 ⟨⟨hne, hraw⟩, h⟩

private theorem source_rawAttribute (a : String × Option String) :
    attributeSource (rawAttribute a) = (Dom.Document.attributeHtml a).toList := by
  have hparts : " ".toList = [' '] ∧ "=\"".toList = ['=', '"'] ∧ "\"".toList = ['"'] := by decide
  obtain ⟨name, _ | value⟩ := a
  · simp only [attributeSource, rawAttribute, valueSource, Dom.Document.attributeHtml, Option.map_none,
      String.toList_append, hparts, List.append_nil]
    rfl
  · simp only [attributeSource, rawAttribute, valueSource, Dom.Document.attributeHtml,
      Option.map_some, String.toList_append, hparts, escape, String.toList_ofList,
      List.append_assoc, List.cons_append, List.nil_append]

theorem source_attributes (attributes : List (String × Option String)) :
    (attributes.map rawAttribute).flatMap attributeSource =
      (String.join (attributes.map Dom.Document.attributeHtml)).toList := by
  induction attributes with
  | nil => rfl
  | cons a rest ih =>
    rw [List.map_cons, List.map_cons, List.flatMap_cons, String.join_cons, String.toList_append,
      source_rawAttribute, ih]

private theorem source_opening (e : Element F N) :
    (Token.opening e.tag.toList (e.written.map rawAttribute)).source = (dryTag e).toList := by
  have hparts : "<".toList = ['<'] ∧ ">".toList = ['>'] := by decide
  rw [Token.source, source_attributes, Element.written, join_stored, dryTag]
  simp only [String.toList_append, hparts, List.cons_append, List.nil_append]

theorem source_closing (tag : String) :
    (Token.closing tag.toList).source = (closeTag tag).toList := by
  have hparts : "</".toList = ['<', '/'] ∧ ">".toList = ['>'] := by decide
  simp only [Token.source, closeTag, String.toList_append, hparts, List.cons_append,
    List.nil_append]

private theorem source_tokens {fallback : String}
    (hplain : ∀ c ∈ fallback.toList, c ≠ '&' ∧ IsPlain c)
    (o : Outline F) (after : List Token) :
    source (o.tokens fallback after) = (o.markup fallback).toList ++ source after := by
  induction o generalizing after with
  | nil => rfl
  | text content rest ih =>
    rw [tokens, source_addRaw, ih, markup, String.toList_append, escape, String.toList_ofList,
      List.append_assoc]
  | fallback rest ih =>
    rw [tokens, source_addRaw, ih, markup, String.toList_append, escapeChars_eq_self hplain,
      List.append_assoc]
  | element e content rest ihc ih =>
    have hcons (t : Token) (more : List Token) : source (t :: more) = t.source ++ source more :=
      List.flatMap_cons
    rw [tokens, hcons, source_opening, markup, bodyText]
    split
    · rw [ih, String.append_empty, String.toList_append, List.append_assoc]
    · rw [ihc, hcons, source_closing, ih]
      simp only [String.toList_append, List.append_assoc]

private theorem merged_tokens {fallback : String} (o : Outline F) {after : List Token}
    (hafter : Merged after) : Merged (o.tokens fallback after) := by
  induction o generalizing after with
  | nil => exact hafter
  | text content rest ih => exact merged_addRaw _ (ih hafter)
  | fallback rest ih => exact merged_addRaw _ (ih hafter)
  | element e content rest ihc ih =>
    rw [tokens]
    change Merged (if isVoid e.tag then _ else _)
    split
    · exact ih hafter
    · have hclosing : Merged (.closing e.tag.toList :: rest.tokens fallback after) := ih hafter
      exact ihc hclosing

theorem isAttribute_rawAttribute {entry : String × Option String} (h : isValidName entry.1 = true) :
    IsAttribute (rawAttribute entry) := by
  refine ⟨isName_of_isValidName h, fun value hvalue => ?_⟩
  obtain ⟨inner, -, rfl⟩ := Option.map_eq_some_iff.1 hvalue
  exact fun c hc => isPlain_of_mem_escapeChars hc

theorem isValidName_stored {a : Attribute F} {entry : String × Option String}
    (h : a.stored? = some entry) : isValidName entry.1 = true := by
  cases a with
  | listener event handler => cases h
  | present name | value name text =>
    simp only [Attribute.stored?] at h
    split at h
    · rename_i hname
      cases h
      exact hname
    · cases h

private theorem inGrammar_opening {e : Element F N} (h : isValidName e.tag = true) :
    (Token.opening e.tag.toList (e.written.map rawAttribute)).InGrammar := by
  refine ⟨isName_of_isValidName h, fun raw hraw => ?_⟩
  obtain ⟨entry, hentry, rfl⟩ := List.mem_map.1 hraw
  obtain ⟨a, -, hstored⟩ := List.mem_filterMap.1 hentry
  exact isAttribute_rawAttribute (isValidName_stored hstored)

private theorem inGrammar_tokens {fallback : String} {o : Outline F} (hwell : o.WellFormed)
    {after : List Token} (hafter : ∀ t ∈ after, t.InGrammar) :
    ∀ t ∈ o.tokens fallback after, t.InGrammar := by
  induction o generalizing after with
  | nil => exact hafter
  | text content rest ih =>
    exact inGrammar_addRaw (fun c hc => isPlain_of_mem_escapeChars hc) (ih hwell hafter)
  | fallback rest ih =>
    exact inGrammar_addRaw (fun c hc => isPlain_of_mem_escapeChars hc) (ih hwell hafter)
  | element e content rest ihc ih =>
    obtain ⟨hvalid, -, hcontent, hrest⟩ := hwell
    refine List.forall_mem_cons.2 ⟨inGrammar_opening hvalid, ?_⟩
    split
    · exact ih hrest hafter
    · apply ihc hcontent
      exact List.forall_mem_cons.2 ⟨isName_of_isValidName hvalid, ih hrest hafter⟩

private theorem build_text (raw : List Char) (tokens : List Token) :
    build (.text raw :: tokens) =
      (build tokens).map fun (d, pending) => (d.addText (decode raw), pending) := by
  rw [build]
  cases build tokens <;> rfl

private theorem decode_escapeChars_append (content : String) (raw : List Char) :
    decode (escapeChars content.toList ++ raw) = content ++ decode raw := by
  rw [decode, decode, unescape, unescape, String.toList_ofList, String.toList_ofList,
    unescapeFrom_escapeChars, String.ofList_append, String.ofList_toList]

private theorem decode_escapeChars (content : String) : decode
    (escapeChars content.toList) = content :=
  unescape_escape content

private theorem build_addRaw (content : String) (tokens : List Token) :
    build (addRaw (escapeChars content.toList) tokens) =
      (build tokens).map fun (d, pending) => (d.addText content, pending) := by
  apply addRaw_cases
    (P := fun tokens' => build tokens' =
      (build tokens).map fun (d, pending) => (d.addText content, pending))
  · intro hnil
    have hempty : content = "" := by
      have hdecoded := decode_escapeChars content
      rw [hnil] at hdecoded
      exact hdecoded.symm
    subst hempty
    cases build tokens <;> rfl
  · rintro more rest - rfl
    rw [build_text, build_text, Option.map_map, decode_escapeChars_append]
    congr 1
    funext ⟨d, pending⟩
    exact Prod.ext (Document.addText_addText ..).symm rfl
  · intro _ _
    rw [build_text, decode_escapeChars]

private theorem decodeAttribute_rawAttribute (a : String × Option String) :
    decodeAttribute (rawAttribute a) = a := by
  obtain ⟨name, _ | value⟩ := a
  · exact Prod.ext (String.ofList_toList ..) rfl
  · exact Prod.ext (String.ofList_toList ..) (congrArg some (decode_escapeChars value))

private theorem build_tokens {fallback : String} {o : Outline F} (hwell : o.WellFormed)
    {after : List Token} {pending : List (List Char × Document)}
    (hafter : build after = some (.nil, pending)) :
    build (o.tokens fallback after) = some (o.document fallback, pending) := by
  induction o generalizing after pending with
  | nil => exact hafter
  | text content rest ih => rw [tokens, build_addRaw, ih hwell hafter, document, Option.map_some]
  | fallback rest ih => rw [tokens, build_addRaw, ih hwell hafter, document, Option.map_some]
  | element e content rest ihc ih =>
    obtain ⟨-, hvoid, hcontent, hrest⟩ := hwell
    have hattributes : (e.written.map rawAttribute).map decodeAttribute = e.written := by
      rw [List.map_map]
      exact (List.map_congr_left fun a _ => decodeAttribute_rawAttribute a).trans (List.map_id _)
    have hrest' := ih hrest hafter
    rw [tokens, document]
    cases hv : isVoid e.tag with
    | true =>
      rw [if_pos rfl, build, hrest', hvoid hv]
      simp only [Option.bind_eq_bind, Option.bind_some, String.ofList_toList, hv, if_true,
        hattributes]
      rfl
    | false =>
      -- Tokens are built up from the last, so the closing tag is met first and waits for `e`.
      have hclosing : build (.closing e.tag.toList :: rest.tokens fallback after) =
          some (.nil, (e.tag.toList, rest.document fallback) :: pending) := by
        rw [build, hrest']
        simp only [Option.bind_eq_bind, Option.bind_some, String.ofList_toList, hv,
          Bool.false_eq_true, if_false]
      rw [if_neg Bool.false_ne_true, build, ihc hcontent hclosing]
      simp only [Option.bind_eq_bind, Option.bind_some, String.ofList_toList, hv, hattributes,
        Bool.false_eq_true, if_false, if_true]

/-- The markup of an outline can be read in one way, and what it is read as is the document that the
outline describes. -/
theorem reads_markup {fallback : String} (hplain : ∀ c ∈ fallback.toList, c ≠ '&' ∧ IsPlain c)
    {o : Outline F} (hwell : o.WellFormed) :
    Tokenizes (o.markup fallback).toList (o.tokens fallback []) ∧
      document? (o.tokens fallback []) = some (o.document fallback) := by
  have hafter : ∀ t ∈ ([] : List Token), t.InGrammar := fun _ h => nomatch h
  have hmerged : Merged [] := trivial
  refine ⟨⟨inGrammar_tokens hwell hafter, merged_tokens o hmerged, ?_⟩, ?_⟩
  · rw [source_tokens hplain]
    exact List.append_nil _
  · rw [document?, build_tokens hwell rfl]

end Outline

end TreeRender
