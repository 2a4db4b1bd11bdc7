import TreeRender.Proofs.Walk.Closed

/-!
# Caches apart from time

Times enter a cache only as ages of its entries. While no entry goes because it is too old, two
walks that differ in the readings of their clocks do the same, and leave caches that differ in
nothing but the times at which entries were stored.
-/

namespace TreeRender

variable {F σ β U α γ : Type}

def CacheEntry.ageless (e : CacheEntry) : CacheEntry := { e with inserted := 0 }

namespace FragmentCache

def ageless (c : FragmentCache) : FragmentCache :=
  { c with ttl := none, entries := c.entries.map CacheEntry.ageless }

private theorem find?_ageless (c : FragmentCache) (key : String) :
    c.ageless.find? key = (c.find? key).map CacheEntry.ageless := by
  unfold find? ageless
  rw [List.find?_map]
  rfl

private theorem erase_ageless (c : FragmentCache) (key : String) :
    (c.erase key).ageless = c.ageless.erase key := by
  unfold erase ageless
  simp only [List.filter_map]
  rfl

private theorem expired_le_get (c : FragmentCache) (key : String) (now : Nat) :
    c.expired ≤ (c.get key now).2.expired := by
  unfold get
  split
  · exact Nat.le_refl _
  · split
    · exact Nat.le_succ _
    · exact Nat.le_refl _

private theorem get_ageless {c : FragmentCache} {key : String} {now : Nat}
    (h : (c.get key now).2.expired = c.expired) :
    c.ageless.get key 0 = ((c.get key now).1, (c.get key now).2.ageless) := by
  unfold get at h ⊢
  rw [find?_ageless]
  cases hfind : c.find? key with
  | none => rfl
  | some entry =>
    rw [hfind] at h
    cases hold : entry.isExpired c.ttl now with
    | true =>
      simp only [hold, if_true] at h
      omega
    | false =>
      have hnever : entry.ageless.isExpired c.ageless.ttl 0 = false := rfl
      simp only [Option.map_some, hnever, hold, Bool.false_eq_true, if_false]
      have hentries : (c.ageless.entries.map fun e =>
          if e.key = key then e.use (c.ageless.stamp + 1) else e) =
          (c.entries.map fun e => if e.key = key then e.use (c.stamp + 1) else e).map
            CacheEntry.ageless := by
        unfold ageless
        rw [List.map_map, List.map_map]
        apply List.map_congr_left
        intro e _
        simp only [Function.comp_apply]
        split <;> rename_i hkey
        · rw [if_pos (show e.key = key from hkey)]
          rfl
        · rw [if_neg (show ¬e.key = key from hkey)]
      rw [hentries]
      rfl

private theorem oldest?_ageless (entries : List CacheEntry) :
    oldest? (entries.map CacheEntry.ageless) = (oldest? entries).map CacheEntry.ageless := by
  induction entries with
  | nil => rfl
  | cons e rest ih =>
    rw [List.map_cons, oldest?, oldest?, ih]
    cases oldest? rest with
    | none => rfl
    | some o =>
      simp only [Option.map_some]
      change (if e.lastUsed ≤ o.lastUsed then _ else _) = _
      split <;> rfl

private theorem makeRoom_ageless (c : FragmentCache) (key : String) :
    (c.makeRoom key).ageless = c.ageless.makeRoom key := by
  have hsize : c.ageless.size = c.size := List.length_map ..
  have hcontains : c.ageless.contains key = c.contains key := by
    unfold contains
    rw [find?_ageless, Option.isSome_map]
  have holdest : oldest? c.ageless.entries = (oldest? c.entries).map CacheEntry.ageless :=
    oldest?_ageless c.entries
  unfold makeRoom
  rw [hsize, hcontains, holdest]
  change _ = if c.capacity ≤ c.size && !c.contains key then _ else _
  split
  · cases oldest? c.entries with
    | none => rfl
    | some entry => exact erase_ageless c entry.key
  · rfl

private theorem insert_ageless (c : FragmentCache) (key fragment : String) (now : Nat) :
    (c.insert key fragment now).ageless = c.ageless.insert key fragment 0 := by
  unfold insert
  change _ = if c.capacity = 0 then _ else _
  split
  · rfl
  · rw [← makeRoom_ageless]
    simp only [← erase_ageless]
    simp only [ageless, List.map_append]
    rfl

private theorem expired_insert (c : FragmentCache) (key fragment : String) (now : Nat) :
    (c.insert key fragment now).expired = c.expired := by
  have hroom : (c.makeRoom key).expired = c.expired := by
    unfold makeRoom
    split
    · split <;> rfl
    · rfl
  unfold insert
  split
  · rfl
  · exact hroom

end FragmentCache

/-- States that differ in clocks and in the times in their caches only. -/
structure WalkState.Twin (s t : WalkState σ β) : Prop where
  scene : s.toScene = t.toScene
  backend : s.backend = t.backend
  cache : s.cache.ageless = t.cache.ageless

/-- A part of a walk that does the same from states that differ in times only, unless an entry goes
because of its age. -/
structure Walk.Timeless (x : Walk σ β α) : Prop where
  le : ∀ s, s.cache.expired ≤ (x.exec s).2.cache.expired
  twin : ∀ {s t : WalkState σ β}, s.Twin t → (x.exec s).2.cache.expired = s.cache.expired →
    (x.exec t).2.cache.expired = t.cache.expired →
      (x.exec s).1 = (x.exec t).1 ∧ (x.exec s).2.Twin (x.exec t).2

theorem Walk.Timeless.bind {x : Walk σ β α} {f : α → Walk σ β γ} (hx : x.Timeless)
    (hf : ∀ a, (f a).Timeless) : (x >>= f).Timeless where
  le s := by
    have hfirst := hx.le s
    rw [exec_bind]
    generalize x.exec s = p at hfirst ⊢
    obtain ⟨_ | a, s'⟩ := p
    · exact hfirst
    · exact Nat.le_trans hfirst ((hf a).le s')
  twin {s t} h hs ht := by
    have first (s : WalkState σ β) (h : ((x >>= f).exec s).2.cache.expired = s.cache.expired) :
        (x.exec s).2.cache.expired = s.cache.expired := by
      have hle := hx.le s
      rw [exec_bind] at h
      generalize x.exec s = p at h hle ⊢
      obtain ⟨_ | a, s'⟩ := p
      · exact h
      · have hrest := (hf a).le s'
        exact Nat.le_antisymm (h ▸ hrest) hle
    have hfirsts := first s hs
    have hfirstt := first t ht
    obtain ⟨heq, htwin⟩ := hx.twin h hfirsts hfirstt
    rw [exec_bind] at hs ht ⊢
    rw [exec_bind]
    generalize x.exec s = p at hs hfirsts heq htwin ⊢
    generalize x.exec t = q at ht hfirstt heq htwin ⊢
    obtain ⟨a, s'⟩ := p
    obtain ⟨b, t'⟩ := q
    obtain rfl : a = b := heq
    cases a with
    | error e => exact ⟨rfl, htwin⟩
    | ok a => exact (hf a).twin htwin (hs.trans hfirsts.symm) (ht.trans hfirstt.symm)

theorem Walk.Timeless.of_cache_eq {x : Walk σ β α} (hcache : ∀ s, (x.exec s).2.cache = s.cache)
    (htwin : ∀ {s t : WalkState σ β}, s.Twin t →
      (x.exec s).1 = (x.exec t).1 ∧ (x.exec s).2.Twin (x.exec t).2) : x.Timeless where
  le s := Nat.le_of_eq (congrArg FragmentCache.expired (hcache s).symm)
  twin h _ _ := htwin h

private theorem Walk.Timeless.onScene (x : Calls σ α) : (Walk.onScene x : Walk σ β α).Timeless := by
  apply of_cache_eq fun _ => rfl
  intro s t h
  rw [exec_onScene, exec_onScene, h.scene]
  exact ⟨rfl, rfl, h.backend, h.cache⟩

private theorem Walk.Timeless.onBackend (x : StateT β Logged α) :
    (Walk.onBackend x : Walk σ β α).Timeless := by
  apply of_cache_eq fun _ => rfl
  intro s t h
  rw [exec_onBackend, exec_onBackend, h.backend]
  exact ⟨rfl, h.scene, rfl, h.cache⟩

private theorem Walk.Timeless.count (f : Scene σ → Scene σ) :
    (Walk.count f : Walk σ β Unit).Timeless :=
  .of_cache_eq (fun _ => rfl) fun h => ⟨rfl, congrArg f h.scene, h.backend, h.cache⟩

private theorem Walk.Timeless.lookUp (key : String) :
    (Walk.lookUp key : Walk σ β (Option String)).Timeless where
  le s := s.cache.expired_le_get key s.clock.now
  twin {s t} h hs ht := by
    have hgets := FragmentCache.get_ageless (c := s.cache) hs
    have hgett := FragmentCache.get_ageless (c := t.cache) ht
    rw [h.cache, hgett] at hgets
    obtain ⟨hfragment, hcache⟩ := Prod.mk.inj hgets
    exact ⟨congrArg Except.ok hfragment.symm, h.scene, h.backend, hcache.symm⟩

private theorem Walk.Timeless.store (key fragment : String) :
    (Walk.store key fragment : Walk σ β Unit).Timeless where
  le s := Nat.le_of_eq (s.cache.expired_insert key fragment s.clock.now).symm
  twin {s t} h _ _ := by
    refine ⟨rfl, h.scene, h.backend, ?_⟩
    have hs := s.cache.insert_ageless key fragment s.clock.now
    have ht := t.cache.insert_ageless key fragment t.clock.now
    rw [h.cache] at hs
    exact hs.trans ht.symm

private theorem Walk.composable_timeless (backend : Backend F β U) :
    Walk.Composable backend (fun _ => True) fun x : Walk σ β _ => x.Timeless where
  toHereditary := Node.hereditary_true
  pure _ := .of_cache_eq (fun _ => rfl) fun h => ⟨rfl, h⟩
  bind hx hf := hx.bind hf
  logged _ := .of_cache_eq (fun _ => rfl) fun h => ⟨rfl, h⟩
  countElement := .count _
  countHit := .count _
  countMiss := .count _
  operation _ := .onBackend _
  lookUp _ := .lookUp
  store _ := .store

/-- A walk does the same at any time, unless an entry of the cache goes because of its age. -/
theorem timeless_walk (program : Program F σ) (config : Config) (backend : Backend F β U)
    (node : Node F) : (walk program config backend 1 node).Timeless := by
  have throw {α : Type} (e : RenderError) : (throw e : Walk σ β α).Timeless :=
    .of_cache_eq (fun _ => rfl) fun h => ⟨rfl, h⟩
  have closed : Walk.Closed program config backend _ fun x : Walk σ β _ => x.Timeless :=
    (Walk.composable_timeless backend).closed throw Walk.Timeless.onScene
  exact closed.walk trivial

end TreeRender
