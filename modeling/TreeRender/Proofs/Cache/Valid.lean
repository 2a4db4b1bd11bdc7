import TreeRender.Proofs.Signature.Injective
import TreeRender.Walk

/-!
# Valid caches

Whatever a renderer goes through, an entry of its cache stands under the signature of an element
that may be cached, and holds the markup of this element. Signatures tell elements apart as far as
markup goes, so what a look-up finds is the markup of the element that was asked for.
-/

namespace TreeRender

variable {F : Type}

structure CacheEntry.MadeFor (config : Config) (entry : CacheEntry) (e : Element F (Node F)) :
    Prop where
  cacheable : config.isCacheable e = true
  validName : Markup.isValidName e.tag = true
  key : entry.key = e.signature
  fragment : entry.fragment = e.plainMarkup

namespace FragmentCache

variable (F) in
def Valid (config : Config) (c : FragmentCache) : Prop :=
  ∀ entry ∈ c.entries, ∃ e : Element F (Node F), entry.MadeFor config e

variable {config : Config} {c : FragmentCache}

theorem mem_entries_get {key : String} {now : Nat} {entry : CacheEntry}
    (h : entry ∈ (c.get key now).2.entries) :
    ∃ old ∈ c.entries, entry.key = old.key ∧ entry.fragment = old.fragment := by
  unfold FragmentCache.get at h
  split at h
  · exact ⟨entry, h, rfl, rfl⟩
  · split at h
    · exact ⟨entry, (List.mem_filter.1 h).1, rfl, rfl⟩
    · obtain ⟨old, hold, rfl⟩ := List.mem_map.1 h
      refine ⟨old, hold, ?_⟩
      split <;> exact ⟨rfl, rfl⟩

private theorem mem_of_mem_makeRoom {key : String} {entry : CacheEntry}
    (h : entry ∈ (c.makeRoom key).entries) : entry ∈ c.entries := by
  unfold FragmentCache.makeRoom at h
  split at h
  · split at h
    · exact h
    · exact (List.mem_filter.1 h).1
  · exact h

theorem mem_entries_insert {key fragment : String} {now : Nat} {entry : CacheEntry}
    (h : entry ∈ (c.insert key fragment now).entries) :
    entry ∈ c.entries ∨ entry.key = key ∧ entry.fragment = fragment := by
  unfold FragmentCache.insert at h
  split at h
  · exact .inl h
  · rcases List.mem_append.1 h with hold | hnew
    · exact .inl (mem_of_mem_makeRoom (List.mem_filter.1 hold).1)
    · rw [List.mem_singleton.1 hnew]
      exact .inr ⟨rfl, rfl⟩

theorem valid_empty (capacity : Nat) (ttl : Option Nat) : (empty capacity ttl).Valid F config :=
  fun _ h => nomatch h

theorem valid_clear : c.clear.Valid F config := fun _ h => nomatch h

theorem Valid.get (h : c.Valid F config) (key : String) (now : Nat) :
    (c.get key now).2.Valid F config := by
  intro entry hentry
  obtain ⟨old, hold, hkey, hfragment⟩ := mem_entries_get hentry
  obtain ⟨e, he⟩ := h old hold
  exact ⟨e, he.cacheable, he.validName, hkey.trans he.key, hfragment.trans he.fragment⟩

theorem Valid.insert (h : c.Valid F config) {e : Element F (Node F)}
    (hcacheable : config.isCacheable e = true) (hvalid : Markup.isValidName e.tag = true)
    (now : Nat) : (c.insert e.signature e.plainMarkup now).Valid F config := by
  intro entry hentry
  obtain hold | ⟨hkey, hfragment⟩ := mem_entries_insert hentry
  · exact h entry hold
  · exact ⟨e, hcacheable, hvalid, hkey, hfragment⟩

theorem mem_of_get {key fragment : String} {now : Nat} (h : (c.get key now).1 = some fragment) :
    ∃ entry ∈ c.entries, entry.key = key ∧ entry.fragment = fragment := by
  unfold FragmentCache.get at h
  split at h
  · cases h
  · rename_i entry hfind
    split at h
    · cases h
    · unfold FragmentCache.find? at hfind
      have hkey : entry.key = key := by simpa using List.find?_some hfind
      exact ⟨entry, List.mem_of_find?_eq_some hfind, hkey, Option.some.inj h⟩

theorem Valid.get_eq (h : c.Valid F config) {e : Element F (Node F)} {fragment : String}
    {now : Nat} (hget : (c.get e.signature now).1 = some fragment) :
    fragment = e.plainMarkup := by
  obtain ⟨entry, hentry, hkey, hfragment⟩ := mem_of_get hget
  obtain ⟨e', he'⟩ := h entry hentry
  rw [← hfragment, he'.fragment]
  exact Element.markup_eq_of_signature_eq (he'.key.symm.trans hkey) ""

end FragmentCache

end TreeRender
