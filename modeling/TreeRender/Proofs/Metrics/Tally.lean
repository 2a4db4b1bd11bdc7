import TreeRender.Proofs.Metrics.Openings
import TreeRender.Proofs.Stream.TopDown
import TreeRender.Proofs.Walk.Making

/-!
# Counted elements

While markup is written, one element is counted for each opening tag, except for those in a fragment
from the cache, which counts as one whatever is in it. At most one look-up is counted for an element.
A render counts an element where it makes its unit, a stream where it opens it.
-/

namespace TreeRender

open Markup Reading

variable {F σ : Type}

theorem Calls.Blind.keeps_counts {α : Type} {x : Calls σ α} (h : x.Blind) (s : Scene σ) :
    (x.exec s).2.counters.elements = s.counters.elements ∧
      (x.exec s).2.counters.hits = s.counters.hits ∧
      (x.exec s).2.counters.misses = s.counters.misses := by
  rw [← h.counts_eq s]
  exact ⟨rfl, rfl, rfl⟩

/-- How the counts have grown over markup with `n` opening tags. -/
structure Counters.Tally (c c' : Counters) (n : Nat) : Prop where
  hits_le : c.hits ≤ c'.hits
  elements_le : c'.elements ≤ c.elements + n
  elements_eq : c'.hits = c.hits → c'.elements = c.elements + n
  lookups_le : c'.hits + c'.misses + c.elements ≤ c.hits + c.misses + c'.elements

namespace Counters.Tally

variable {c c₁ c₂ : Counters} {n m : Nat}

private theorem of_eq (helements : c₁.elements = c.elements) (hhits : c₁.hits = c.hits)
    (hmisses : c₁.misses = c.misses) : c.Tally c₁ 0 where
  hits_le := hhits.ge
  elements_le := helements.le
  elements_eq _ := helements
  lookups_le := by rw [helements, hhits, hmisses]

theorem refl (c : Counters) : c.Tally c 0 := .of_eq rfl rfl rfl

theorem append (h : c.Tally c₁ n) (h' : c₁.Tally c₂ m) : c.Tally c₂ (n + m) := by
  obtain ⟨hhits, hle, heq, hlookups⟩ := h
  obtain ⟨hhits', hle', heq', hlookups'⟩ := h'
  exact ⟨by omega, by omega, fun hsame => by
    have hfirst := heq (by omega)
    have hsecond := heq' (by omega)
    omega, by omega⟩

private theorem element (h : c₁.Tally c₂ n) (helements : c₁.elements = c.elements + 1)
    (hhits : c₁.hits = c.hits) (hmisses : c₁.misses ≤ c.misses + 1) : c.Tally c₂ (n + 1) := by
  obtain ⟨hhits', hle, heq, hlookups⟩ := h
  exact ⟨by omega, by omega, fun hsame => by
    have hcontent := heq (by omega)
    omega, by omega⟩

private theorem found (helements : c₁.elements = c.elements + 1) (hhits : c₁.hits = c.hits + 1)
    (hmisses : c₁.misses = c.misses) : c.Tally c₁ (n + 1) :=
  ⟨by omega, by omega, fun hsame => by omega, by omega⟩

end Counters.Tally

namespace FragmentCache

variable {config : Config} {c : FragmentCache}

def Opening (c : FragmentCache) : Prop := ∀ entry ∈ c.entries, ∃ n, Opens entry.fragment (n + 1)

theorem Valid.opening (h : c.Valid F config) : c.Opening := by
  intro entry hentry
  obtain ⟨e, hmade⟩ := h entry hentry
  rw [hmade.fragment]
  exact Element.opens_plainMarkup hmade.validName

namespace Opening

variable (h : c.Opening) (key : String) (now : Nat)

include h

private theorem get : (c.get key now).2.Opening := by
  intro entry hentry
  obtain ⟨old, hold, -, hfragment⟩ := mem_entries_get hentry
  rw [hfragment]
  exact h old hold

private theorem found {fragment : String} (hget : (c.get key now).1 = some fragment) :
    ∃ n, Opens fragment (n + 1) := by
  obtain ⟨entry, hentry, -, rfl⟩ := mem_of_get hget
  exact h entry hentry

private theorem insert {fragment : String} (hfragment : ∃ n, Opens fragment (n + 1)) :
    (c.insert key fragment now).Opening := by
  intro entry hentry
  obtain hold | ⟨-, hnew⟩ := mem_entries_insert hentry
  · exact h entry hold
  · rw [hnew]
    exact hfragment

end Opening

end FragmentCache

theorem join_singleton (u : String) : String.join [u] = u :=
  String.join_cons.trans String.append_empty

/-- The units `us` were written on the way from `s` to `t`, and their elements were counted. -/
def Tallied (s t : WalkState σ (Registry F)) (us : List String) : Prop :=
  s.cache.Opening → t.cache.Opening ∧ ∃ n, Opens (String.join us) n ∧ s.counters.Tally t.counters n

namespace Tallied

variable {s t v : WalkState σ (Registry F)} {us : List String} {u : String}

private theorem join (h : Tallied s t us) (hu : u = String.join us) : Tallied s t [u] := by
  rw [Tallied, join_singleton, hu]
  exact h

theorem text (hu : Opens u 0) (hcache : t.cache = s.cache) (hcounters : t.counters = s.counters) :
    Tallied s t [u] := by
  intro hs
  rw [hcache, hcounters, join_singleton]
  exact ⟨hs, 0, hu, .refl _⟩

end Tallied

theorem composes_tallied : Composes (fun _ _ => True) (Tallied (F := F) (σ := σ)) where
  stop _ := trivial
  error _ _ := trivial
  nil s hs := ⟨hs, 0, .empty, .refl _⟩
  append h h' hs := by
    obtain ⟨ht, n, hn, htally⟩ := h hs
    obtain ⟨hu, m, hm, htally'⟩ := h' ht
    rw [String.join_append]
    exact ⟨hu, n + m, hn.append hm, htally.append htally'⟩
  calls hx s hs := by
    obtain ⟨helements, hhits, hmisses⟩ := hx.keeps_counts s.toScene
    exact ⟨hs, 0, .empty, .of_eq helements hhits hmisses⟩

/-- The element `u` was written on the way from `s` to `t`, and the elements of its content were
counted. -/
def TalliedContent (s t : WalkState σ (Registry F)) (u : String) : Prop :=
  s.cache.Opening → t.cache.Opening ∧ ∃ n, Opens u (n + 1) ∧ s.counters.Tally t.counters n

namespace Tallied

variable {s t : WalkState σ (Registry F)} {us : List String} {e : Element F (Node F)}

private theorem content (h : Tallied s t us) (hvalid : isValidName e.tag = true)
    (hvoid : isVoid e.tag = true → us = []) (hydrate : Bool) (r : Registry F) :
    TalliedContent s t ((openText hydrate e r).1 ++ bodyText e (String.join us)) := by
  intro hs
  obtain ⟨ht, n, hn, htally⟩ := h hs
  have hempty (hv : isVoid e.tag = true) : String.join us = "" := by
    rw [hvoid hv]
    rfl
  exact ⟨ht, n, hn.element hvalid hempty hydrate r, htally⟩

end Tallied

namespace TalliedContent

variable {s₀ s t : WalkState σ (Registry F)} {u : String}

theorem tallied (h : TalliedContent s t u) (hcache : s₀.cache.Opening → s.cache.Opening)
    (helements : s.counters.elements = s₀.counters.elements + 1)
    (hhits : s.counters.hits = s₀.counters.hits)
    (hmisses : s.counters.misses ≤ s₀.counters.misses + 1) : Tallied s₀ t [u] := by
  intro hs
  obtain ⟨ht, n, hn, htally⟩ := h (hcache hs)
  rw [join_singleton]
  exact ⟨ht, n + 1, hn, htally.element helements hhits hmisses⟩

end TalliedContent

namespace Markup

variable {program : Program F σ} {config : Config}

private theorem ends_element (hydrate : Bool) {e : Element F (Node F)}
    (hvalid : isValidName e.tag = true)
    {s t : WalkState σ (Registry F)} {us : List String} (hvoid : isVoid e.tag = true → us = [])
    (h : Tallied s t us) : Walk.Ends (fun _ => True) (fun u v => TalliedContent s v u)
      ((Walk.onBackend ((backend hydrate).element e us)).exec t) := by
  change TalliedContent s t (elementText hydrate e us t.backend).value.1
  rw [value_elementText]
  exact h.content hvalid hvoid hydrate t.backend

theorem makes_tallied (hydrate : Bool) {fallback : String} (hfallback : '<' ∉ fallback.toList) :
    (backend hydrate : Backend F (Registry F) String).Makes (σ := σ) fallback (fun _ _ => True)
      Tallied where
  toComposes := composes_tallied
  empty _ := Tallied.text .empty rfl rfl
  text text _ := Tallied.text (.escape text) rfl rfl
  fallback _ := Tallied.text (.text hfallback) rfl rfl
  fragment h := h.join rfl
  enter _ _ := trivial
  element _ hvalid hvoid h := (ends_element hydrate hvalid hvoid h).imp (fun _ => id)
    fun _ _ hu => hu.tallied id rfl rfl (Nat.le_succ _)

private theorem ends_cachedUnit (hydrate : Bool) (depth : Nat) (e : Element F (Node F))
    (s : WalkState σ (Registry F)) : Walk.Ends (fun _ => True)
      (fun found t => t.counters = s.counters ∧ (s.cache.Opening → t.cache.Opening ∧
        ∀ fragment, found = some fragment → ∃ n, Opens fragment (n + 1)))
      ((cachedUnit config (backend hydrate) depth e).exec s) := by
  by_cases hfits : depth + e.height - 1 ≤ config.maxDepth
  · have hfound (hs : s.cache.Opening) (fragment : String) :
        (s.cache.get e.signature s.clock.now).1 = some fragment → ∃ n, Opens fragment (n + 1) :=
      hs.found e.signature s.clock.now
    have hcache (hs : s.cache.Opening) := hs.get e.signature s.clock.now
    rw [exec_cachedUnit_fits hfits]
    generalize s.cache.get e.signature s.clock.now = answer at hfound hcache ⊢
    obtain ⟨_ | fragment, cache⟩ := answer
    · exact ⟨rfl, fun hs => ⟨hcache hs, nofun⟩⟩
    · exact ⟨rfl, fun hs => ⟨hcache hs, hfound hs⟩⟩
  · rw [exec_cachedUnit_tooHigh hfits s]
    exact ⟨rfl, fun hs => ⟨hs, nofun⟩⟩

section

variable {hydrate : Bool} (hfallback : '<' ∉ config.errorFallback.toList)
  {below : Node F → Walk σ (Registry F) String}
  (hbelow : ∀ n s, Walk.Makes (fun _ _ => True) Tallied s (below n))
  {e : Element F (Node F)} (hvalid : isValidName e.tag = true)

include hfallback hbelow hvalid

private theorem ends_storeUnit (s : WalkState σ (Registry F)) : Walk.Ends (fun _ => True)
    (fun u t => TalliedContent { s with toScene := s.toScene.countMiss } t u)
    (Walk.exec (do
      Walk.count Scene.countMiss
      let unit ← buildElement program config (backend hydrate) below e
      storeUnit (backend hydrate) e unit
      return unit) s) := by
  rw [Walk.exec_bind_ok _ (t := { s with toScene := s.toScene.countMiss }) rfl]
  refine Walk.Ends.bind ((makes_tallied hydrate hfallback).buildElement hbelow e _
    (fun _ _ => trivial) fun _ _ hvoid hus => ends_element hydrate hvalid hvoid hus) ?_
  intro u t hu
  rw [Walk.exec_bind_ok _ (exec_storeUnit rfl), Walk.exec_pure]
  intro hs
  obtain ⟨ht, n, hn, htally⟩ := hu hs
  exact ⟨ht.insert _ _ ⟨n, hn⟩, n, hn, htally⟩

private theorem makes_cachedElement (depth : Nat)
    (hcached : ((backend hydrate : Backend F (Registry F) String).cachesFragments &&
      config.isCacheable e) = true) (s : WalkState σ (Registry F)) :
    Walk.Makes (fun _ _ => True) Tallied s
      (walkElement program config (backend hydrate) below depth e) := by
  rw [walkElement_cached hvalid hcached, Walk.Makes, Walk.exec_bind_ok _ (t := s.counting) rfl]
  apply (ends_cachedUnit hydrate depth e s.counting).bind
  rintro found t ⟨hcounters, hlookup⟩
  have helements : t.counters.elements = s.counters.elements + 1 := by rw [hcounters]; rfl
  have hhits : t.counters.hits = s.counters.hits := by rw [hcounters]; rfl
  have hmisses : t.counters.misses = s.counters.misses := by rw [hcounters]; rfl
  cases found with
  | none =>
    exact (ends_storeUnit hfallback hbelow hvalid t).imp (fun _ => id) fun _ _ hu =>
      hu.tallied (fun hs => (hlookup hs).1) helements hhits (Nat.succ_le_succ hmisses.le)
  | some fragment =>
    intro hs
    obtain ⟨ht, hfragment⟩ := hlookup hs
    obtain ⟨n, hn⟩ := hfragment fragment rfl
    rw [join_singleton]
    exact ⟨ht, n + 1, hn, .found helements (congrArg (· + 1) hhits) hmisses⟩

end

section

variable (program : Program F σ) (hfallback : '<' ∉ config.errorFallback.toList) (levels depth : Nat)
  (node : Node F) (s : WalkState σ (Registry F))

include hfallback

theorem tallied_walkFrom (hydrate : Bool) : Walk.Makes (fun _ _ => True) Tallied s
    (walkFrom program config (backend hydrate) levels depth node) :=
  ((makes_tallied hydrate hfallback).traversal fun hbelow depth _ hvalid hcached s =>
    makes_cachedElement hfallback hbelow hvalid depth hcached s).walkFrom levels depth node s

private theorem ends_opening (e : Element F (Node F)) : Walk.Ends (fun _ => True)
    (fun u t => ∃ us, (isVoid e.tag = true → us = []) ∧ Tallied s.counting t us ∧
      u = (openText config.enableHydration e s.backend).1 ++ String.join us)
    ((opening program config e).exec s) := by
  cases hvoid : isVoid e.tag with
  | true =>
    rw [opening_void hvoid]
    exact ⟨[], fun _ => rfl, composes_tallied.nil _, String.append_empty.symm⟩
  | false =>
    rw [opening_content hvoid, Walk.exec_bind_ok _ (t := s.counting) rfl, Walk.exec_bind,
      Walk.exec_onBackend]
    apply Walk.Ends.bind ((makes_tallied config.enableHydration hfallback).walkDirective e.text _)
    intro us t hus
    exact ⟨us, nofun, hus, rfl⟩

private theorem makes_streamedElement {below : Node F → Walk σ (Registry F) String}
    (hbelow : ∀ n s, Walk.Makes (fun _ _ => True) Tallied s (below n)) (e : Element F (Node F)) :
    Walk.Makes (fun _ _ => True) Tallied s ((streamed program config).element below levels depth e) := by
  have opened := ends_opening program hfallback s e
  simp only [streamed]
  by_cases hcacheable : config.isCacheable e = true
  · rw [if_pos hcacheable]
    exact tallied_walkFrom program hfallback _ _ _ s _
  rw [if_neg hcacheable]
  cases hvalid : isValidName e.tag with
  | false => exact Tallied.text .empty rfl rfl
  | true =>
    simp only [Bool.not_true, Bool.false_eq_true, if_false]
    cases hvoid : isVoid e.tag with
    | true =>
      rw [if_pos rfl]
      refine opened.imp (fun _ => id) ?_
      rintro _ t ⟨us, hempty, hus, rfl⟩
      have hcontent := hus.content hvalid hempty config.enableHydration s.backend
      rw [bodyText, hvoid, if_pos rfl] at hcontent
      rw [hempty hvoid]
      exact hcontent.tallied id rfl rfl (Nat.le_succ _)
    | false =>
      rw [if_neg Bool.false_ne_true]
      apply Walk.Ends.bind opened
      rintro _ t ⟨us, -, hus, rfl⟩
      apply Walk.Ends.bind (composes_tallied.walkEach e.childNodes (fun n _ => hbelow n) t)
      intro vs v hvs
      have hcontent := (composes_tallied.append hus hvs).content hvalid
        (fun hv => absurd (hvoid.symm.trans hv) Bool.false_ne_true) config.enableHydration s.backend
      rw [bodyText, hvoid, if_neg Bool.false_ne_true, String.join_append] at hcontent
      simp only [← String.append_assoc] at hcontent
      exact hcontent.tallied id rfl rfl (Nat.le_succ _)

theorem tallied_streamed : Walk.Makes (fun _ _ => True) Tallied s
    ((streamed program config).visit program config levels depth node) := by
  have makes : (streamed program config).Makes program config (fun _ _ => True) (Tallied (F := F)) := {
    toComposes := composes_tallied
    empty := fun _ => Tallied.text .empty rfl rfl
    text := fun text _ => Tallied.text (.escape text) rfl rfl
    fragment := fun h => h.join rfl
    recover := (makes_tallied config.enableHydration hfallback).recover
    element := fun levels depth hbelow e s =>
      makes_streamedElement program hfallback levels depth s hbelow e }
  exact makes.visit levels depth node s

end

end Markup

end TreeRender
