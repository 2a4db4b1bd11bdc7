import TreeRender.Proofs.Walk.Closed

/-!
# Bounded caches

A cache never holds more entries than it was made for, and no two under one key. Look-ups and
insertions keep this, and a walk does nothing else to its cache.
-/

namespace TreeRender

variable {F σ β U : Type}

namespace FragmentCache

/-- A cache made for a configuration, within its capacity and with one entry for each key. -/
structure Bounded (config : Config) (c : FragmentCache) : Prop where
  capacity : c.capacity = config.cacheSize
  size : c.size ≤ config.cacheSize
  nodup : c.keys.Nodup

variable {config : Config} {c : FragmentCache}

theorem bounded_empty : (empty config.cacheSize config.cacheTtl).Bounded config :=
  ⟨rfl, Nat.zero_le _, List.nodup_nil⟩

theorem Bounded.clear (h : c.Bounded config) : c.clear.Bounded config :=
  ⟨h.capacity, Nat.zero_le _, List.nodup_nil⟩

theorem Bounded.erase (h : c.Bounded config) (key : String) : (c.erase key).Bounded config :=
  ⟨h.capacity, Nat.le_trans (List.length_filter_le _ _) h.size,
    (List.filter_sublist.map _).nodup h.nodup⟩

theorem contains_eq_true {key : String} : c.contains key = true ↔ ∃ e ∈ c.entries, e.key = key := by
  simp [contains, find?]

private theorem size_erase_lt {key : String} (h : c.contains key = true) :
    (c.erase key).size < c.size := by
  obtain ⟨entry, hentry, hkey⟩ := contains_eq_true.1 h
  exact List.length_filter_lt_length_iff_exists.2 ⟨entry, hentry, by simp [hkey]⟩

theorem notMem_keys_erase (key : String) : key ∉ (c.erase key).keys := by
  intro hmem
  obtain ⟨entry, hentry, hkey⟩ := List.mem_map.1 hmem
  simpa [hkey] using (List.mem_filter.1 hentry).2

theorem Bounded.get (h : c.Bounded config) (key : String) (now : Nat) :
    (c.get key now).2.Bounded config := by
  unfold FragmentCache.get
  split
  · exact ⟨h.capacity, h.size, h.nodup⟩
  · split
    · have herased := h.erase key
      exact ⟨herased.capacity, herased.size, herased.nodup⟩
    · refine ⟨h.capacity, Nat.le_trans (Nat.le_of_eq (List.length_map _)) h.size, ?_⟩
      have hkeys : (c.entries.map fun e => if e.key = key then e.use (c.stamp + 1) else e).map
          CacheEntry.key = c.keys := by
        rw [List.map_map]
        apply List.map_congr_left
        intro e _
        rw [Function.comp_apply]
        split <;> rfl
      exact (congrArg List.Nodup hkeys).mpr h.nodup

theorem oldest?_mem {entries : List CacheEntry} {entry : CacheEntry}
    (h : oldest? entries = some entry) : entry ∈ entries := by
  induction entries generalizing entry with
  | nil => cases h
  | cons e rest ih =>
    rw [oldest?] at h
    split at h
    · cases h
      exact List.mem_cons_self
    · rename_i o hrest
      split at h
      · cases h
        exact List.mem_cons_self
      · cases h
        exact List.mem_cons_of_mem _ (ih hrest)

theorem oldest?_isSome {entries : List CacheEntry} (h : entries ≠ []) :
    ∃ entry, oldest? entries = some entry := by
  cases entries with
  | nil => exact absurd rfl h
  | cons e rest =>
    rw [oldest?]
    split
    · exact ⟨_, rfl⟩
    · split <;> exact ⟨_, rfl⟩

private theorem Bounded.makeRoom (h : c.Bounded config) (key : String) :
    (c.makeRoom key).Bounded config := by
  unfold FragmentCache.makeRoom
  split
  · split
    · exact h
    · exact h.erase _
  · exact h

private theorem Bounded.size_makeRoom_lt (h : c.Bounded config) (hpos : 0 < config.cacheSize)
    (key : String) : ((c.makeRoom key).erase key).size < config.cacheSize := by
  have herase (c : FragmentCache) : (c.erase key).size ≤ c.size := List.length_filter_le _ _
  unfold FragmentCache.makeRoom
  cases hcontains : c.contains key with
  | true =>
    rw [Bool.not_true, Bool.and_false, if_neg Bool.false_ne_true]
    exact Nat.lt_of_lt_of_le (size_erase_lt hcontains) h.size
  | false =>
    rw [Bool.not_false, Bool.and_true, h.capacity]
    by_cases hfull : config.cacheSize ≤ c.size
    · rw [if_pos (decide_eq_true hfull)]
      have hentries : c.entries ≠ [] := by
        intro hempty
        have hzero : c.size = 0 := congrArg List.length hempty
        omega
      obtain ⟨entry, hentry⟩ := oldest?_isSome hentries
      simp only [hentry]
      have hfound : c.contains entry.key = true :=
        contains_eq_true.2 ⟨entry, oldest?_mem hentry, rfl⟩
      have hsmaller : (c.erase entry.key).size < c.size := size_erase_lt hfound
      exact Nat.lt_of_le_of_lt (herase _) (Nat.lt_of_lt_of_le hsmaller h.size)
    · rw [if_neg (by simpa using hfull)]
      exact Nat.lt_of_le_of_lt (herase c) (by omega)

theorem Bounded.insert (h : c.Bounded config) (key fragment : String) (now : Nat) :
    (c.insert key fragment now).Bounded config := by
  unfold FragmentCache.insert
  split
  · exact h
  · rename_i hcapacity
    have hpos : 0 < config.cacheSize := by
      rw [h.capacity] at hcapacity
      omega
    have herased := (h.makeRoom key).erase key
    refine ⟨herased.capacity, ?_, ?_⟩
    · have hsize : (((c.makeRoom key).erase key).entries ++
          [(⟨key, fragment, 0, (c.makeRoom key).stamp + 1, now⟩ : CacheEntry)]).length =
          ((c.makeRoom key).erase key).size + 1 := List.length_append
      exact Nat.le_trans (Nat.le_of_eq hsize) (h.size_makeRoom_lt hpos key)
    · have hkeys : (((c.makeRoom key).erase key).entries ++
          [(⟨key, fragment, 0, (c.makeRoom key).stamp + 1, now⟩ : CacheEntry)]).map CacheEntry.key =
          ((c.makeRoom key).erase key).keys ++ [key] := List.map_append
      have hnew (k : String) (hk : k ∈ ((c.makeRoom key).erase key).keys) : k ≠ key := by
        rintro rfl
        exact notMem_keys_erase k hk
      refine (congrArg List.Nodup hkeys).mpr (List.nodup_append.2 ⟨herased.nodup, by simp, ?_⟩)
      intro k hk k' hk'
      exact List.mem_singleton.1 hk' ▸ hnew k hk

end FragmentCache

theorem Backend.stepsWithin_bounded (config : Config) (backend : Backend F β U) :
    backend.StepsWithin (σ := σ) (fun _ => True)
      fun s t => s.cache.Bounded config → t.cache.Bounded config where
  toHereditary := Node.hereditary_true
  refl _ hs := hs
  trans hst htu hs := htu (hst hs)
  scene _ _ hs := hs
  clock _ _ hs := hs
  lookUp _ _ key now hs := hs.get key now
  store _ _ key fragment now hs := hs.insert key fragment now
  operation _ _ hs := hs

theorem Backend.stepsWithin_sameCache {backend : Backend F β U}
    (h : backend.cachesFragments = false) :
    backend.StepsWithin (σ := σ) (fun _ => True) fun s t => t.cache = s.cache where
  toHereditary := Node.hereditary_true
  refl _ := rfl
  trans hst htu := htu.trans hst
  scene _ _ := rfl
  clock _ _ := rfl
  lookUp hcaches := by rw [h] at hcaches; cases hcaches
  store hcaches := by rw [h] at hcaches; cases hcaches
  operation _ _ := rfl

end TreeRender
