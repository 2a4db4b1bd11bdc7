import TreeRender.Proofs.Dom.Mirror
import TreeRender.Proofs.Outline.Markup

/-!
# The markup of live nodes

Live nodes that mirror an outline are written as the outline is, where the fallback counts as text.
The one thing that a live element does not keep apart is a class that is set twice, once under each
of its two keys.
-/

namespace TreeRender

open Markup

variable {F N : Type}

namespace Element

/-- Whether the element has an attribute to show under the key. -/
def carries (e : Element F N) (key : String) : Bool :=
  e.attributes.any fun (k, value) => k == key && (Attribute.ofValue? k value).isSome

def doublesClass (e : Element F N) : Bool := e.carries "class" && e.carries "className"

theorem carries_of_mem {e : Element F N} {key : String} {value : AttrValue F}
    (hmem : (key, value) ∈ e.attributes) (hsome : (Attribute.ofValue? key value).isSome) :
    e.carries key = true :=
  List.any_eq_true.2 ⟨(key, value), hmem, by simp [hsome]⟩

end Element

def Outline.doublesClass : Outline F → Bool
  | .nil => false
  | .text _ rest => rest.doublesClass
  | .fallback rest => rest.doublesClass
  | .element e content rest => e.doublesClass || content.doublesClass || rest.doublesClass

namespace Dom

private theorem setAll_of_nodup {entries attributes : List (String × Option String)}
    (h : ((attributes ++ entries).map Prod.fst).Nodup) :
    setAll entries attributes = attributes ++ entries := by
  induction entries generalizing attributes with
  | nil => exact (List.append_nil _).symm
  | cons entry rest ih =>
    have hnew : entry.1 ∉ attributes.map Prod.fst := by
      intro hmem
      rw [List.map_append, List.nodup_append] at h
      exact h.2.2 _ hmem _ (by simp) rfl
    have happended : setAll (entry :: rest) attributes = setAll rest (attributes ++ [entry]) := by
      unfold setAll
      rw [List.foldl_cons, setKey_of_notMem hnew]
    rw [happended, ih (by simpa using h)]
    simp

end Dom

namespace Attribute

def name? : Attribute F → Option String
  | .value name _ => some name
  | .present name => some name
  | .listener .. => none

private theorem name?_of_stored? {a : Attribute F} {entry : String × Option String}
    (h : a.stored? = some entry) : a.name? = some entry.1 := by
  cases a with
  | listener event handler => cases h
  | _ =>
    simp only [stored?] at h
    split at h
    · cases h
      rfl
    · cases h

private theorem name?_of_ofValue? {key : String} {value : AttrValue F} {a : Attribute F}
    (h : ofValue? key value = some a) : a.name? = none ∨ a.name? = some (attributeName key) := by
  cases value with
  | null => cases h
  | bool b =>
    cases b with
    | false => cases h
    | true =>
      cases h
      exact .inr rfl
  | handler handler =>
    obtain ⟨event, -, rfl⟩ := Option.map_eq_some_iff.1 h
    exact .inl rfl
  | _ =>
    cases h
    exact .inr rfl

theorem stored?_ofValue? {key : String} {value : AttrValue F} {entry : String × Option String}
    (h : (ofValue? key value).bind stored? = some entry) :
    entry.1 = attributeName key ∧ (ofValue? key value).isSome := by
  obtain ⟨a, ha, hstored⟩ := Option.bind_eq_some_iff.1 h
  refine ⟨?_, by rw [ha]; rfl⟩
  have hname := name?_of_stored? hstored
  rcases name?_of_ofValue? ha with hnone | hsome
  · rw [hname] at hnone
    cases hnone
  · exact Option.some.inj (hname.symm.trans hsome)

theorem attributeText_eq (a : Attribute F) :
    attributeText a = (a.stored?.map Dom.Document.attributeHtml).getD "" := by
  cases a with
  | listener event handler => rfl
  | _ => simp only [attributeText, stored?]; split <;> rfl

end Attribute

theorem attributeName_inj {key key' : String} (hne : key ≠ key')
    (h : attributeName key = attributeName key') :
    key = "class" ∧ key' = "className" ∨ key = "className" ∧ key' = "class" := by
  unfold attributeName at h
  by_cases hkey : key = "className"
  · rw [if_pos hkey, if_neg fun hkey' => hne (hkey.trans hkey'.symm)] at h
    exact .inr ⟨hkey, h.symm⟩
  · by_cases hkey' : key' = "className"
    · rw [if_neg hkey, if_pos hkey'] at h
      exact .inl ⟨h, hkey'⟩
    · rw [if_neg hkey, if_neg hkey'] at h
      exact absurd h hne

private theorem Element.nodup_stored {e : Element F N} (h : e.doublesClass = false) :
    ((e.mapped.filterMap Attribute.stored?).map Prod.fst).Nodup := by
  have hkeys := List.pairwise_map.1 e.nodup_keys
  unfold mapped
  rw [List.filterMap_filterMap]
  refine List.pairwise_map.2 (List.pairwise_filterMap.2 (hkeys.imp_of_mem ?_))
  rintro ⟨key, value⟩ ⟨key', value'⟩ hmem hmem' hne entry hentry entry' hentry' hsame
  obtain ⟨hname, hcarried⟩ := Attribute.stored?_ofValue? hentry
  obtain ⟨hname', hcarried'⟩ := Attribute.stored?_ofValue? hentry'
  rw [hname, hname'] at hsame
  have hcarries := carries_of_mem hmem hcarried
  have hcarries' := carries_of_mem hmem' hcarried'
  unfold doublesClass at h
  rcases attributeName_inj hne hsame with ⟨rfl, rfl⟩ | ⟨rfl, rfl⟩
  · rw [hcarries, hcarries'] at h
    cases h
  · rw [hcarries, hcarries'] at h
    cases h

theorem join_stored (attributes : List (Attribute F)) :
    String.join ((attributes.filterMap Attribute.stored?).map Dom.Document.attributeHtml) =
      String.join (attributes.map attributeText) := by
  induction attributes with
  | nil => rfl
  | cons a rest ih =>
    rw [List.map_cons, String.join_cons, Attribute.attributeText_eq, ← ih]
    cases hstored : a.stored? with
    | none =>
      rw [List.filterMap_cons_none hstored]
      exact String.empty_append.symm
    | some entry =>
      rw [List.filterMap_cons_some hstored, List.map_cons, String.join_cons]
      rfl

namespace Dom

private theorem LiveElement.Shows.openingTag {live : LiveElement F} {e : Element F N}
    (h : live.Shows e)
    (hclass : e.doublesClass = false) :
    "<" ++ live.tag ++ String.join (live.attributes.map Document.attributeHtml) ++ ">" =
      dryTag e := by
  have hnodup : (([] ++ e.mapped.filterMap Attribute.stored?).map Prod.fst).Nodup :=
    Element.nodup_stored hclass
  rw [h.tag, h.attributes, setAll_of_nodup hnodup, List.nil_append, join_stored]
  rfl

namespace Document

variable {d : Document F} {id levels : Nat}

theorem htmlFrom_text {content : String} (hnode : d.nodes[id]? = some (.text content))
    (hlevel : id < levels) : d.htmlFrom levels id = escape content := by
  cases levels with
  | zero => cases hlevel
  | succ n => rw [htmlFrom, hnode]

theorem htmlFrom_element {live : LiveElement F} (hnode : d.nodes[id]? = some (.element live)) :
    d.htmlFrom (levels + 1) id =
      let opening := "<" ++ live.tag ++ String.join (live.attributes.map attributeHtml) ++ ">"
      if isVoid live.tag then opening
      else
        opening ++ String.join (live.children.map (d.htmlFrom levels)) ++ "</" ++ live.tag ++ ">" := by
  rw [htmlFrom, hnode]

/-- The markup of nodes that mirror an outline. Children are older than their parents, so the number
of a node bounds the levels below it. -/
theorem Mirrors.html_eq {fallback : String} {first : Nat} {ids : List NodeId} {o : Outline F}
    (h : d.Mirrors fallback first ids o) (hclass : o.doublesClass = false)
    (hlevels : ∀ id ∈ ids, id < levels) :
    String.join (ids.map (d.htmlFrom levels)) = o.markup (escape fallback) := by
  induction h generalizing levels with
  | nil => rfl
  | text _ hnode _ ih =>
    obtain ⟨hlevel, hrest⟩ := List.forall_mem_cons.1 hlevels
    rw [List.map_cons, String.join_cons, htmlFrom_text hnode hlevel, ih hclass hrest]
    rfl
  | noFallback hempty _ ih =>
    rw [ih hclass hlevels, hempty]
    exact String.empty_append.symm
  | fallback _ _ hnode _ ih =>
    obtain ⟨hlevel, hrest⟩ := List.forall_mem_cons.1 hlevels
    rw [List.map_cons, String.join_cons, htmlFrom_text hnode hlevel, ih hclass hrest]
    rfl
  | @element id live ids e content rest _ hnode hshows hchildren _ _ ihc ih =>
    obtain ⟨hlevel, hrest⟩ := List.forall_mem_cons.1 hlevels
    simp only [Outline.doublesClass, Bool.or_eq_false_iff] at hclass
    obtain ⟨⟨hown, hcontent⟩, hmore⟩ := hclass
    cases levels with
    | zero => cases hlevel
    | succ n =>
      have hbelow (child : NodeId) (hchild : child ∈ live.children) : child < n :=
        Nat.lt_of_lt_of_le (hchildren child hchild) (Nat.le_of_lt_succ hlevel)
      rw [List.map_cons, String.join_cons, htmlFrom_element hnode, ih hmore hrest]
      simp only [hshows.openingTag hown]
      simp only [hshows.tag, ihc hcontent hbelow, Outline.markup, bodyText, closeTag]
      split
      · rw [String.append_empty]
      · simp only [String.append_assoc]

end Document

end Dom

end TreeRender
