import TreeRender.Proofs.Hydration.Registry
import TreeRender.Proofs.Outline.WellFormed
import TreeRender.Proofs.Walk.Closed

/-!
# The parts of hydrated markup

Markup is written in parts: texts, fallbacks, opening tags and closing tags. With hydration, an
opening tag has an attribute for each action of its element, with an id of its own. Apart from these
attributes the markup is what it is without hydration.
-/

namespace TreeRender

open Markup

variable {F N σ : Type}

/-- The actions of an element: its handlers under keys that name an event whose name is valid. -/
def Element.actions (e : Element F N) : List (Action F) :=
  e.attributes.filterMap fun (key, value) =>
    match value with
    | .handler name => ((eventType? key).filter isValidName).map (⟨·, name⟩)
    | _ => none

/-- The action that hydration publishes for an attribute. -/
def Attribute.action? : Attribute F → Option (Action F)
  | .listener event handler => if isValidName event then some ⟨event, handler⟩ else none
  | _ => none

private theorem Attribute.action?_ofValue? (key : String) (value : AttrValue F) :
    (ofValue? key value).bind action? =
      match value with
      | .handler name => ((eventType? key).filter isValidName).map (⟨·, name⟩)
      | _ => none := by
  cases value with
  | null => rfl
  | bool b => cases b <;> rfl
  | str text => rfl
  | number x => rfl
  | style declarations => rfl
  | handler name =>
    rw [ofValue?]
    cases eventType? key with
    | none => rfl
    | some event =>
      rw [Option.map_some, Option.bind_some, action?, Option.filter_some]
      cases isValidName event <;> rfl

theorem Element.actions_eq (e : Element F N) :
    e.actions = e.mapped.filterMap Attribute.action? := by
  rw [mapped, List.filterMap_filterMap, actions]
  congr 1
  funext ⟨key, value⟩
  exact (Attribute.action?_ofValue? key value).symm

/-- A stretch of markup, or the attribute that names a published action. -/
inductive Segment (F : Type) where
  | plain (markup : String)
  | action (id : Nat) (action : Action F)

namespace Segment

def text : Segment F → String
  | .plain markup => markup
  | .action id a => " data-action-" ++ a.event ++ "=\"" ++ ActionId.text id ++ "\""

def entry? : Segment F → Option (Nat × Action F)
  | .plain _ => none
  | .action id a => some (id, a)

/-- What stays of a segment when the attributes of actions are deleted. -/
def plainText : Segment F → String
  | .plain markup => markup
  | .action .. => ""

/-- The segments of attributes, whose actions get the ids from `next` on. -/
def ofAttributes : List (Attribute F) → (next : Nat) → List (Segment F)
  | [], _ => []
  | a :: rest, next =>
    match a.action? with
    | none => .plain (attributeText a) :: ofAttributes rest next
    | some published => .action next published :: ofAttributes rest (next + 1)

end Segment

def written (segments : List (Segment F)) : String := String.join (segments.map Segment.text)

/-- The published actions that segments name, one for each attribute. -/
def published (segments : List (Segment F)) : List (Nat × Action F) :=
  segments.filterMap Segment.entry?

/-- The markup of segments without the attributes of actions. -/
def stripped (segments : List (Segment F)) : String := String.join (segments.map Segment.plainText)

theorem written_append (segments segments' : List (Segment F)) :
    written (segments ++ segments') = written segments ++ written segments' := by
  rw [written, List.map_append, String.join_append]
  rfl

theorem published_append (segments segments' : List (Segment F)) :
    published (segments ++ segments') = published segments ++ published segments' :=
  List.filterMap_append

private theorem stripped_append (segments segments' : List (Segment F)) :
    stripped (segments ++ segments') = stripped segments ++ stripped segments' := by
  rw [stripped, List.map_append, String.join_append]
  rfl

private theorem written_cons (segment : Segment F) (segments : List (Segment F)) :
    written (segment :: segments) = segment.text ++ written segments := String.join_cons

private theorem stripped_cons (segment : Segment F) (segments : List (Segment F)) :
    stripped (segment :: segments) = segment.plainText ++ stripped segments := String.join_cons

theorem written_plain (markup : String) : written [(.plain markup : Segment F)] = markup := by
  rw [written_cons]
  exact String.append_empty

private theorem published_plain (markup : String) (segments : List (Segment F)) :
    published (.plain markup :: segments) = published segments := rfl

private theorem stripped_plain (markup : String) : stripped [(.plain markup : Segment F)] = markup
    := by
  rw [stripped_cons]
  exact String.append_empty

namespace Segment

private theorem attributeText_of_action {a : Attribute F} {action : Action F}
    (h : a.action? = some action) :
    attributeText a = "" := by
  cases a with
  | listener event handler => rfl
  | _ => cases h

theorem tagAttribute_action {a : Attribute F} {action : Action F} (h : a.action? = some action)
    (r : Registry F) :
    tagAttribute true a r = ((Segment.action r.nextId action).text, r.gain [action]) := by
  cases a with
  | listener event handler =>
    change (if isValidName event then some ⟨event, handler⟩ else none) = some action at h
    by_cases hvalid : isValidName event = true
    · rw [if_pos hvalid] at h
      obtain rfl := Option.some.inj h
      exact tagAttribute_published handler hvalid r
    · rw [if_neg hvalid] at h
      cases h
  | _ => cases h

theorem tagAttribute_plain {a : Attribute F} (h : a.action? = none) (r : Registry F) :
    tagAttribute true a r = (attributeText a, r) := by
  cases a with
  | listener event handler =>
    change (if isValidName event then some (⟨event, handler⟩ : Action F) else none) = none at h
    by_cases hvalid : isValidName event = true
    · rw [if_pos hvalid] at h
      cases h
    · exact tagAttribute_unpublished handler (Bool.eq_false_iff.2 hvalid) r
  | _ => rfl

private theorem tagAttributes_eq (attributes : List (Attribute F)) (r : Registry F) :
    tagAttributes true attributes r = (written (ofAttributes attributes r.nextId),
      r.gain (attributes.filterMap Attribute.action?)) := by
  induction attributes generalizing r with
  | nil =>
    rw [List.filterMap_nil, Registry.gain_nil]
    rfl
  | cons a rest ih =>
    rw [tagAttributes, ofAttributes]
    cases haction : a.action? with
    | none =>
      simp only [tagAttribute_plain haction, ih, List.filterMap_cons_none haction]
      exact Prod.ext String.join_cons.symm rfl
    | some action =>
      simp only [tagAttribute_action haction, ih, List.filterMap_cons_some haction,
        Registry.gain_gain]
      exact Prod.ext String.join_cons.symm rfl

private theorem published_ofAttributes (attributes : List (Attribute F)) (next : Nat) :
    published (ofAttributes attributes next) =
      numbered next (attributes.filterMap Attribute.action?) := by
  induction attributes generalizing next with
  | nil => rfl
  | cons a rest ih =>
    rw [ofAttributes]
    cases haction : a.action? with
    | none =>
      rw [List.filterMap_cons_none haction, ← ih]
      rfl
    | some action =>
      rw [List.filterMap_cons_some haction]
      exact congrArg ((next, action) :: ·) (ih (next + 1))

private theorem stripped_ofAttributes (attributes : List (Attribute F)) (next : Nat) :
    stripped (ofAttributes attributes next) = String.join (attributes.map attributeText) := by
  induction attributes generalizing next with
  | nil => rfl
  | cons a rest ih =>
    rw [ofAttributes, List.map_cons, String.join_cons]
    cases haction : a.action? with
    | none =>
      rw [← ih next]
      exact String.join_cons
    | some action =>
      rw [attributeText_of_action haction, ← ih (next + 1)]
      exact String.join_cons

end Segment

inductive Part (F : Type) where
  | text (content : String)
  | fallback
  | opening (e : Element F (Node F))
  | closing (tag : String)

def attributeSegments (hydrate : Bool) (attributes : List (Attribute F)) (first : Nat) :
    List (Segment F) :=
  if hydrate then Segment.ofAttributes attributes first
  else [.plain (String.join (attributes.map attributeText))]

variable (config : Config)

namespace Part

def actions : Part F → List (Action F)
  | .opening e => if config.enableHydration then e.actions else []
  | _ => []

/-- The segments of a part. The actions of an opening tag have the ids from `first` on. -/
def segments (first : Nat) : Part F → List (Segment F)
  | .text content => [.plain (escape content)]
  | .fallback => [.plain config.errorFallback]
  | .opening e => .plain ("<" ++ e.tag) ::
      (attributeSegments config.enableHydration e.mapped first ++ [.plain ">"])
  | .closing tag => [.plain (closeTag tag)]

def plain : Part F → String
  | .text content => escape content
  | .fallback => config.errorFallback
  | .opening e => dryTag e
  | .closing tag => closeTag tag

theorem published_segments (first : Nat) (part : Part F) :
    published (part.segments config first) = numbered first (part.actions config) := by
  cases part with
  | opening e =>
    have hattributes : published (attributeSegments config.enableHydration e.mapped first) =
        numbered first ((opening e).actions config) := by
      rw [attributeSegments, actions]
      cases config.enableHydration with
      | false => rfl
      | true =>
        rw [if_pos rfl, if_pos rfl, Segment.published_ofAttributes, e.actions_eq]
    rw [segments, published_plain, published_append, hattributes]
    exact List.append_nil _
  | _ => rfl

private theorem stripped_segments (first : Nat) (part : Part F) :
    stripped (part.segments config first) = part.plain config := by
  cases part with
  | opening e =>
    have hattributes : stripped (attributeSegments config.enableHydration e.mapped first) =
        String.join (e.mapped.map attributeText) := by
      rw [attributeSegments]
      cases config.enableHydration with
      | false => exact stripped_plain _
      | true => exact Segment.stripped_ofAttributes e.mapped first
    rw [segments, stripped_cons, stripped_append, stripped_plain, hattributes, plain, dryTag,
      String.append_assoc, String.append_assoc]
    rfl
  | _ => exact stripped_plain _

/-- Parts with ids for their actions, one after the other from `first` on. -/
def numberFrom : (first : Nat) → List (Part F) → List (Part F × Nat)
  | _, [] => []
  | first, part :: rest => (part, first) :: numberFrom (first + (part.actions config).length) rest

theorem map_fst_numberFrom (first : Nat) (parts : List (Part F)) :
    (numberFrom config first parts).map Prod.fst = parts := by
  induction parts generalizing first with
  | nil => rfl
  | cons part rest ih => rw [numberFrom, List.map_cons, ih]

theorem numberFrom_append (first : Nat) (parts parts' : List (Part F)) :
    numberFrom config first (parts ++ parts') = numberFrom config first parts ++
      numberFrom config (first + (parts.flatMap (Part.actions config)).length) parts' := by
  induction parts generalizing first with
  | nil => rfl
  | cons part rest ih =>
    rw [List.cons_append, numberFrom, numberFrom, ih, List.flatMap_cons, List.length_append,
      Nat.add_assoc, List.cons_append]

end Part

/-- The segments of parts, each with the first id of its actions. -/
def segmentsOf (parts : List (Part F × Nat)) : List (Segment F) :=
  parts.flatMap fun part => part.1.segments config part.2

theorem segmentsOf_append (parts parts' : List (Part F × Nat)) :
    segmentsOf config (parts ++ parts') = segmentsOf config parts ++ segmentsOf config parts' :=
  List.flatMap_append

theorem segmentsOf_cons (part : Part F × Nat) (parts : List (Part F × Nat)) :
    segmentsOf config (part :: parts) =
      part.1.segments config part.2 ++ segmentsOf config parts :=
  List.flatMap_cons

theorem actions_published (parts : List (Part F × Nat)) :
    (published (segmentsOf config parts)).map Prod.snd =
      (parts.map Prod.fst).flatMap (Part.actions config) := by
  induction parts with
  | nil => rfl
  | cons part rest ih =>
    rw [segmentsOf_cons, published_append, List.map_append, ih, Part.published_segments,
      actions_numbered, List.map_cons, List.flatMap_cons]

theorem stripped_segmentsOf (parts : List (Part F × Nat)) :
    stripped (segmentsOf config parts) =
      String.join ((parts.map Prod.fst).map (Part.plain config)) := by
  induction parts with
  | nil => rfl
  | cons part rest ih =>
    rw [segmentsOf_cons, stripped_append, ih, Part.stripped_segments, List.map_cons, List.map_cons,
      String.join_cons]

private theorem published_numberFrom (first : Nat) (parts : List (Part F)) :
    published (segmentsOf config (Part.numberFrom config first parts)) =
      numbered first (parts.flatMap (Part.actions config)) := by
  induction parts generalizing first with
  | nil => rfl
  | cons part rest ih =>
    rw [Part.numberFrom, segmentsOf_cons, published_append, Part.published_segments, ih,
      List.flatMap_cons, numbered_append]

/-- The markup of parts that are written one after the other, and the registry with their
actions. -/
def writeParts (parts : List (Part F)) (r : Registry F) : String × Registry F :=
  (written (segmentsOf config (Part.numberFrom config r.nextId parts)),
    r.gain (parts.flatMap (Part.actions config)))

theorem writeParts_nil (r : Registry F) : writeParts config [] r = ("", r) :=
  Prod.ext rfl r.gain_nil

theorem writeParts_append (parts parts' : List (Part F)) (r : Registry F) :
    writeParts config (parts ++ parts') r =
      ((writeParts config parts r).1 ++ (writeParts config parts' (writeParts config parts r).2).1,
        (writeParts config parts' (writeParts config parts r).2).2) := by
  refine Prod.ext ?_ ?_
  · simp only [writeParts, Part.numberFrom_append, segmentsOf_append, written_append]
    rfl
  · simp only [writeParts, Registry.gain_gain, List.flatMap_append]

private theorem writeParts_cons (part : Part F) (parts : List (Part F)) (r : Registry F) :
    writeParts config (part :: parts) r =
      ((writeParts config [part] r).1 ++ (writeParts config parts (writeParts config [part] r).2).1,
        (writeParts config parts (writeParts config [part] r).2).2) :=
  writeParts_append config [part] parts r

theorem writeParts_singleton (part : Part F) (r : Registry F) : writeParts config [part] r =
    (written (part.segments config r.nextId), r.gain (part.actions config)) := by
  simp only [writeParts, Part.numberFrom, segmentsOf, List.flatMap_singleton]

theorem openText_eq_writeParts (e : Element F (Node F)) (r : Registry F) :
    openText config.enableHydration e r = writeParts config [.opening e] r := by
  have hwritten (attributes : List (Segment F)) :
      written (.plain ("<" ++ e.tag) :: (attributes ++ [.plain ">"])) =
        "<" ++ e.tag ++ written attributes ++ ">" := by
    rw [written_cons, written_append, written_plain, String.append_assoc, String.append_assoc]
    rfl
  rw [writeParts_singleton, Part.segments, hwritten, openText, attributeSegments, Part.actions]
  cases config.enableHydration with
  | false =>
    rw [tagAttributes_dry, if_neg Bool.false_ne_true, if_neg Bool.false_ne_true, written_plain,
      Registry.gain_nil]
  | true => rw [Segment.tagAttributes_eq, if_pos rfl, if_pos rfl, e.actions_eq]

theorem gains_writeParts (parts : List (Part F)) (r : Registry F) :
    r.Gains (published (segmentsOf config (Part.numberFrom config r.nextId parts)))
      (writeParts config parts r).2 :=
  ⟨_, rfl, by rw [published_numberFrom]⟩

theorem gains_openText (e : Element F (Node F)) (r : Registry F) :
    r.Gains (published ((Part.opening e).segments config r.nextId))
      (openText config.enableHydration e r).2 := by
  rw [openText_eq_writeParts, writeParts_singleton, Part.published_segments]
  exact ⟨_, rfl, .refl _⟩

section

variable (r : Registry F)

theorem writeParts_text (content : String) :
    writeParts config [.text content] r = (escape content, r) := by
  rw [writeParts_singleton, Part.actions, Registry.gain_nil, Part.segments, written_plain]
  exact fun _ h => nomatch h

theorem writeParts_fallback : writeParts config [.fallback] r = (config.errorFallback, r) := by
  rw [writeParts_singleton, Part.actions, Registry.gain_nil, Part.segments, written_plain]
  exact fun _ h => nomatch h

theorem writeParts_closing (tag : String) :
    writeParts config [.closing tag] r = (closeTag tag, r) := by
  rw [writeParts_singleton, Part.actions, Registry.gain_nil, Part.segments, written_plain]
  exact fun _ h => nomatch h

end

namespace Outline

def elements : Outline F → List (Element F (Node F))
  | .nil => []
  | .text _ rest => rest.elements
  | .fallback rest => rest.elements
  | .element e content rest => e :: (content.elements ++ rest.elements)

/-- The parts of an outline in the order in which they stand. -/
def parts : Outline F → List (Part F)
  | .nil => []
  | .text content rest => .text content :: rest.parts
  | .fallback rest => .fallback :: rest.parts
  | .element e content rest => .opening e ::
      (if isVoid e.tag then rest.parts else content.parts ++ .closing e.tag :: rest.parts)

theorem parts_append (o o' : Outline F) : (o ++ o').parts = o.parts ++ o'.parts := by
  induction o with
  | nil => rfl
  | text content rest ih => simp only [text_append, parts, ih, List.cons_append]
  | fallback rest ih => simp only [fallback_append, parts, ih, List.cons_append]
  | element e content rest _ ih =>
    simp only [element_append, parts, ih, List.cons_append]
    split
    · rfl
    · rw [List.append_assoc, List.cons_append]

section

variable {config}

theorem plain_parts {o : Outline F} (hwell : o.WellFormed) :
    String.join (o.parts.map (Part.plain config)) = o.markup config.errorFallback := by
  induction o with
  | nil => rfl
  | text content rest ih => rw [parts, List.map_cons, String.join_cons, ih hwell]; rfl
  | fallback rest ih => rw [parts, List.map_cons, String.join_cons, ih hwell]; rfl
  | element e content rest ihc ih =>
    obtain ⟨-, -, hcontent, hrest⟩ := hwell
    rw [parts, List.map_cons, String.join_cons, markup, bodyText]
    cases isVoid e.tag with
    | true =>
      rw [if_pos rfl, if_pos rfl, ih hrest, String.append_empty]
      rfl
    | false =>
      rw [if_neg Bool.false_ne_true, if_neg Bool.false_ne_true, List.map_append, String.join_append,
        List.map_cons, String.join_cons, ihc hcontent, ih hrest]
      simp only [Part.plain, String.append_assoc]

theorem actions_parts {o : Outline F} (hwell : o.WellFormed)
    (hhydrate : config.enableHydration = true) :
    o.parts.flatMap (Part.actions config) = o.elements.flatMap Element.actions := by
  have hopening (e : Element F (Node F)) : (Part.opening e).actions config = e.actions :=
    if_pos hhydrate
  induction o with
  | nil => rfl
  | text content rest ih => exact ih hwell
  | fallback rest ih => exact ih hwell
  | element e content rest ihc ih =>
    obtain ⟨-, hempty, hcontent, hrest⟩ := hwell
    rw [parts, elements, List.flatMap_cons, List.flatMap_cons, hopening, List.flatMap_append,
      ← ihc hcontent, ← ih hrest]
    cases hvoid : isVoid e.tag with
    | true =>
      rw [if_pos rfl, hempty hvoid]
      rfl
    | false =>
      rw [if_neg Bool.false_ne_true, List.flatMap_append]
      rfl

theorem topDown_eq_writeParts {o : Outline F} (hwell : o.WellFormed) (r : Registry F) :
    o.topDown config.enableHydration config.errorFallback r = writeParts config o.parts r := by
  induction o generalizing r with
  | nil => exact (writeParts_nil config r).symm
  | text content rest ih => rw [parts, writeParts_cons, writeParts_text, topDown, ih hwell]
  | fallback rest ih => rw [parts, writeParts_cons, writeParts_fallback, topDown, ih hwell]
  | element e content rest ihc ih =>
    obtain ⟨-, hempty, hcontent, hrest⟩ := hwell
    rw [topDown, parts, writeParts_cons, ← openText_eq_writeParts]
    cases hvoid : isVoid e.tag with
    | true =>
      obtain rfl := hempty hvoid
      simp only [topDown, bodyText, hvoid, if_pos, ih hrest, String.append_empty]
    | false =>
      rw [if_neg Bool.false_ne_true, writeParts_append, writeParts_cons, writeParts_closing]
      simp only [bodyText, hvoid, Bool.false_eq_true, if_false, ihc hcontent, ih hrest,
        String.append_assoc]

end

/-- The parts of an outline as they are written from `r` to `r'`, which leaves the registry with
exactly the actions that they name. -/
structure InParts (o : Outline F) (r r' : Registry F) (html : String)
    (parts : List (Part F × Nat)) : Prop where
  shape : parts.map Prod.fst = o.parts
  html : html = written (segmentsOf config parts)
  gains : r.Gains (published (segmentsOf config parts)) r'

section

variable {config} {o content rest : Outline F} {r r' r₁ r₁' r₂ r₂' : Registry F}
  {html inner more : String} {parts contentParts restParts : List (Part F × Nat)}

private theorem InParts.text (h : InParts config rest r r' more parts) (content : String) :
    InParts config (.text content rest) r r' (escape content ++ more)
      ((.text content, 0) :: parts) where
  shape := congrArg _ h.shape
  html := by rw [segmentsOf_cons, written_append, ← h.html, Part.segments, written_plain]
  gains := h.gains

private theorem InParts.fallback (h : InParts config rest r r' more parts) :
    InParts config (.fallback rest) r r' (config.errorFallback ++ more)
      ((.fallback, 0) :: parts) where
  shape := congrArg _ h.shape
  html := by rw [segmentsOf_cons, written_append, ← h.html, Part.segments, written_plain]
  gains := h.gains

private theorem InParts.void {e : Element F (Node F)} (hvoid : isVoid e.tag = true)
    (hrest : InParts config rest (openText config.enableHydration e r).2 r' more restParts) :
    InParts config (.element e .nil rest) r r'
      ((openText config.enableHydration e r).1 ++ bodyText e "" ++ more)
      ((.opening e, r.nextId) :: restParts) where
  shape := by rw [parts, if_pos hvoid, List.map_cons, hrest.shape]
  html := by
    rw [segmentsOf_cons, written_append, ← hrest.html, bodyText, hvoid, if_pos rfl,
      String.append_empty, openText_eq_writeParts, writeParts_singleton]
  gains := by
    rw [segmentsOf_cons, published_append]
    exact (gains_openText config e r).trans hrest.gains

private theorem InParts.element {e : Element F (Node F)} (hvoid : isVoid e.tag = false)
    (hcontent : InParts config content r r₁ inner contentParts)
    (hrest : InParts config rest (openText config.enableHydration e r₁).2 r' more restParts) :
    InParts config (.element e content rest) r r'
      ((openText config.enableHydration e r₁).1 ++ bodyText e inner ++ more)
      ((.opening e, r₁.nextId) :: (contentParts ++ (.closing e.tag, 0) :: restParts)) where
  shape := by
    rw [parts, if_neg (Bool.eq_false_iff.1 hvoid), List.map_cons, List.map_append, List.map_cons,
      hcontent.shape, hrest.shape]
  html := by
    rw [segmentsOf_cons, segmentsOf_append, segmentsOf_cons, written_append, written_append,
      written_append, ← hcontent.html, ← hrest.html, bodyText, hvoid, if_neg Bool.false_ne_true,
      openText_eq_writeParts, writeParts_singleton, Part.segments, Part.segments, written_plain]
    simp only [String.append_assoc]
  gains := by
    have hgains := (hcontent.gains.trans (gains_openText config e r₁)).trans hrest.gains
    rw [segmentsOf_cons, segmentsOf_append, segmentsOf_cons, published_append, published_append,
      published_append, ← List.append_assoc]
    exact hgains.perm (List.perm_append_comm.append_right _)

variable (config) in
theorem inParts_bottomUp (hwell : o.WellFormed) (r : Registry F) :
    ∃ parts, InParts config o r (o.bottomUp config.enableHydration config.errorFallback r).2
      (o.bottomUp config.enableHydration config.errorFallback r).1 parts := by
  induction o generalizing r with
  | nil => exact ⟨[], rfl, rfl, .refl r⟩
  | text content rest ih =>
    obtain ⟨parts, hparts⟩ := ih hwell r
    exact ⟨_, hparts.text content⟩
  | fallback rest ih =>
    obtain ⟨parts, hparts⟩ := ih hwell r
    exact ⟨_, hparts.fallback⟩
  | element e content rest ihc ih =>
    obtain ⟨-, hempty, hcontent, hrest⟩ := hwell
    simp only [bottomUp]
    cases hvoid : isVoid e.tag with
    | true =>
      obtain rfl := hempty hvoid
      obtain ⟨restParts, hrestParts⟩ := ih hrest (openText config.enableHydration e r).2
      exact ⟨_, .void hvoid hrestParts⟩
    | false =>
      obtain ⟨contentParts, hcontentParts⟩ := ihc hcontent r
      obtain ⟨restParts, hrestParts⟩ := ih hrest
        (openText config.enableHydration e
          (content.bottomUp config.enableHydration config.errorFallback r).2).2
      exact ⟨_, .element hvoid hcontentParts hrestParts⟩

variable (config) in
theorem inParts_topDown (hwell : o.WellFormed) (r : Registry F) :
    InParts config o r (o.topDown config.enableHydration config.errorFallback r).2
      (o.topDown config.enableHydration config.errorFallback r).1
      (Part.numberFrom config r.nextId o.parts) := by
  rw [topDown_eq_writeParts hwell]
  exact ⟨Part.map_fst_numberFrom config _ _, rfl, gains_writeParts config _ r⟩

end

end Outline

end TreeRender
