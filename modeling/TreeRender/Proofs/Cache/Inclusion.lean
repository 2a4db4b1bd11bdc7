import TreeRender.Proofs.Cache.LeastRecent

/-!
# A larger cache holds more

A recency list with more room, served the same requests, holds all that one with less room holds, in
the same order: what makes room in the larger list is not in the smaller one, or makes room there
too. For this the larger list must never have fewer free places than the smaller one, also after
entries went because of their age. Caches serve as recency lists do, so the same holds of them.
-/

namespace TreeRender

private theorem sublist_dropLast {α : Type} {small large : List α} (h : small.Sublist large) :
    small.dropLast.Sublist large.dropLast := by
  have hreversed := h.reverse.tail
  rw [List.tail_reverse, List.tail_reverse] at hreversed
  exact List.reverse_sublist.1 hreversed

def CacheAnswer.found : CacheAnswer → Bool
  | .fragment found => found.isSome
  | .present found => found
  | .count hits => hits.isSome
  | .done => true

/-- An answer that found something is given alike by the other cache. -/
def CacheAnswer.Kept (answer other : CacheAnswer) : Prop := answer.found = true → other = answer

namespace RecencyList

theorem others_of_find?_eq_none {l : RecencyList} {key : String} (h : l.find? key = none) :
    l.others key = l.entries :=
  List.filter_eq_self.2 fun e he => by simpa using List.find?_eq_none.1 h e he

theorem length_others {l : RecencyList} (hnodup : (l.entries.map RecentEntry.key).Nodup)
    {key : String} {e : RecentEntry} (h : l.find? key = some e) :
    (l.others key).length + 1 = l.entries.length := by
  obtain ⟨hmem, rfl⟩ := (find?_eq_some_iff hnodup).1 h
  have hperm := perm_update hnodup hmem id
  simp only [id, ite_self, List.map_id'] at hperm
  exact hperm.length_eq.symm

private theorem notMem_others (l : RecencyList) (key : String) :
    key ∉ (l.others key).map RecentEntry.key := by
  intro hmem
  obtain ⟨e, he, hkey⟩ := List.mem_map.1 hmem
  have hne : e.key ≠ key := by simpa using (List.mem_filter.1 he).2
  exact hne hkey

section

variable {l : RecencyList} {key : String} {now : Nat} {e : RecentEntry}

private theorem get_of_none (h : l.find? key = none) : l.get key now = (none, l) := by
  rw [get, h]

private theorem get_of_expired (h : l.find? key = some e) (hexpired : e.isExpired l.ttl now = true)
    :
    l.get key now = (none, { l with entries := l.others key }) := by
  rw [get, h]
  exact if_pos hexpired

private theorem get_of_fresh (h : l.find? key = some e) (hexpired : e.isExpired l.ttl now = false) :
    l.get key now = (some e.fragment, { l with entries := e.hit :: l.others key }) := by
  rw [get, h]
  exact if_neg (Bool.eq_false_iff.1 hexpired)

theorem keeping_of_find?_eq_some (h : l.find? key = some e) : l.keeping key = l.others key := by
  rw [keeping, h, Option.isSome_some, if_pos rfl]

theorem keeping_of_room (h : l.find? key = none) (hroom : l.entries.length < l.capacity) :
    l.keeping key = l.entries := by
  rw [keeping, h, Option.isSome_none, if_neg Bool.false_ne_true, if_pos hroom]

theorem keeping_of_full (h : l.find? key = none) (hfull : l.capacity ≤ l.entries.length) :
    l.keeping key = l.entries.dropLast := by
  rw [keeping, h, Option.isSome_none, if_neg Bool.false_ne_true, if_neg (Nat.not_lt.2 hfull)]

end

private theorem keeping_sublist (l : RecencyList) (key : String) :
    (l.keeping key).Sublist (l.others key) := by
  cases hfound : l.find? key with
  | some e => rw [keeping_of_find?_eq_some hfound]
  | none =>
    rw [others_of_find?_eq_none hfound]
    by_cases hroom : l.entries.length < l.capacity
    · rw [keeping_of_room hfound hroom]
    · rw [keeping_of_full hfound (Nat.le_of_not_lt hroom)]
      exact List.dropLast_sublist _

private theorem length_keeping_lt {l : RecencyList} (hnodup : (l.entries.map RecentEntry.key).Nodup)
    (hpos : 0 < l.capacity) (hbounded : l.entries.length ≤ l.capacity) (key : String) :
    (l.keeping key).length < l.capacity := by
  cases hfound : l.find? key with
  | some e =>
    have hothers := length_others hnodup hfound
    rw [keeping_of_find?_eq_some hfound]
    omega
  | none =>
    by_cases hroom : l.entries.length < l.capacity
    · rw [keeping_of_room hfound hroom]
      exact hroom
    · rw [keeping_of_full hfound (Nat.le_of_not_lt hroom), List.length_dropLast]
      omega

/-- The large list holds the entries of the small one, in their order, and has at least as many free
places. -/
structure Within (small large : RecencyList) : Prop where
  ttl : small.ttl = large.ttl
  entries : small.entries.Sublist large.entries
  nodup : (large.entries.map RecentEntry.key).Nodup
  bounded : small.entries.length ≤ small.capacity
  room : large.entries.length + small.capacity ≤ small.entries.length + large.capacity

namespace Within

variable {small large : RecencyList}

theorem nodup_small (h : small.Within large) : (small.entries.map RecentEntry.key).Nodup :=
  (h.entries.map _).nodup h.nodup

private theorem capacity_le (h : small.Within large) : small.capacity ≤ large.capacity := by
  have hlength := h.entries.length_le
  have hroom := h.room
  omega

theorem find?_eq_some (h : small.Within large) {key : String} {e : RecentEntry}
    (hfound : small.find? key = some e) : large.find? key = some e := by
  obtain ⟨hmem, hkey⟩ := (find?_eq_some_iff h.nodup_small).1 hfound
  exact (find?_eq_some_iff h.nodup).2 ⟨h.entries.subset hmem, hkey⟩

theorem others (h : small.Within large) (key : String) :
    (small.others key).Sublist (large.others key) :=
  h.entries.filter _

private theorem length_others_le (h : small.Within large) (key : String) :
    (large.others key).length + small.entries.length ≤
      (small.others key).length + large.entries.length := by
  cases hfound : small.find? key with
  | some e =>
    have hsmall := length_others h.nodup_small hfound
    have hlarge := length_others h.nodup (h.find?_eq_some hfound)
    omega
  | none =>
    have hless : (large.others key).length ≤ large.entries.length := List.length_filter_le ..
    rw [others_of_find?_eq_none hfound]
    omega

theorem erase (h : small.Within large) (key : String) :
    Within { small with entries := small.others key } { large with entries := large.others key } where
  ttl := h.ttl
  entries := h.others key
  nodup := (List.filter_sublist.map _).nodup h.nodup
  bounded := Nat.le_trans (List.length_filter_le ..) h.bounded
  room := by
    have hroom := h.room
    have hless := h.length_others_le key
    change (large.others key).length + small.capacity ≤ (small.others key).length + large.capacity
    omega

theorem cons (h : small.Within large) {e : RecentEntry}
    (hnew : e.key ∉ large.entries.map RecentEntry.key)
    (hspace : small.entries.length < small.capacity) :
    Within { small with entries := e :: small.entries }
      { large with entries := e :: large.entries } where
  ttl := h.ttl
  entries := h.entries.cons_cons e
  nodup := List.nodup_cons.2 ⟨hnew, h.nodup⟩
  bounded := hspace
  room := by
    have hroom := h.room
    simp only [List.length_cons]
    omega

private theorem absent (h : small.Within large) {key : String} (hnone : small.find? key = none)
    {entries : List RecentEntry} (hentries : (large.others key).Sublist entries)
    (hnodup : (entries.map RecentEntry.key).Nodup) (hlength : entries.length ≤ large.entries.length) :
    small.Within { large with entries } where
  ttl := h.ttl
  entries := by
    rw [← others_of_find?_eq_none hnone]
    exact (h.others key).trans hentries
  nodup := hnodup
  bounded := h.bounded
  room := Nat.le_trans (Nat.add_le_add_right hlength _) h.room

private theorem get (h : small.Within large) (key : String) (now : Nat) :
    (CacheAnswer.fragment (small.get key now).1).Kept (.fragment (large.get key now).1) ∧
      (small.get key now).2.Within (large.get key now).2 := by
  have herased := h.erase key
  cases hsmall : small.find? key with
  | some e =>
    have hlarge := h.find?_eq_some hsmall
    cases hexpired : e.isExpired small.ttl now with
    | true =>
      rw [get_of_expired hsmall hexpired, get_of_expired hlarge (h.ttl ▸ hexpired)]
      exact ⟨fun _ => rfl, herased⟩
    | false =>
      have hothers := length_others h.nodup_small hsmall
      have hbounded := h.bounded
      have hkey : e.hit.key = key := ((find?_eq_some_iff h.nodup_small).1 hsmall).2
      have hnew : e.hit.key ∉ (large.others key).map RecentEntry.key :=
        hkey ▸ notMem_others large key
      rw [get_of_fresh hsmall hexpired, get_of_fresh hlarge (h.ttl ▸ hexpired)]
      exact ⟨fun _ => rfl, herased.cons hnew (by dsimp only; omega)⟩
  | none =>
    rw [get_of_none hsmall]
    refine ⟨nofun, ?_⟩
    cases hlarge : large.find? key with
    | none =>
      rw [get_of_none hlarge]
      exact h
    | some e =>
      have hothers := length_others h.nodup hlarge
      have hkey : e.hit.key = key := ((find?_eq_some_iff h.nodup).1 hlarge).2
      have hnew : e.hit.key ∉ (large.others key).map RecentEntry.key :=
        hkey ▸ notMem_others large key
      cases hexpired : e.isExpired large.ttl now with
      | true =>
        rw [get_of_expired hlarge hexpired]
        exact h.absent hsmall (.refl _) herased.nodup (by omega)
      | false =>
        rw [get_of_fresh hlarge hexpired]
        exact h.absent hsmall (List.sublist_cons_self _ _)
          (List.nodup_cons.2 ⟨hnew, herased.nodup⟩) (Nat.le_of_eq hothers)

private theorem keeping_of_absent (h : small.Within large) (hpos : 0 < small.capacity)
    {key : String}
    (hsmall : small.find? key = none) (hlarge : large.find? key = none) :
    (small.keeping key).Sublist (large.keeping key) ∧
      (large.keeping key).length + small.capacity ≤
        (small.keeping key).length + large.capacity := by
  have hroom := h.room
  have hcapacity := h.capacity_le
  by_cases hspace : small.entries.length < small.capacity
  · rw [keeping_of_room hsmall hspace, keeping_of_room hlarge (by omega)]
    exact ⟨h.entries, hroom⟩
  · rw [keeping_of_full hsmall (Nat.le_of_not_lt hspace)]
    by_cases hspace' : large.entries.length < large.capacity
    · rw [keeping_of_room hlarge hspace', List.length_dropLast]
      exact ⟨(List.dropLast_sublist _).trans h.entries, by omega⟩
    · rw [keeping_of_full hlarge (Nat.le_of_not_lt hspace')]
      simp only [List.length_dropLast]
      exact ⟨sublist_dropLast h.entries, by omega⟩

private theorem keeping (h : small.Within large) (hpos : 0 < small.capacity) (key : String) :
    Within { small with entries := small.keeping key }
      { large with entries := large.keeping key } := by
  have hfits := length_keeping_lt h.nodup_small hpos h.bounded key
  cases hsmall : small.find? key with
  | some e =>
    rw [keeping_of_find?_eq_some hsmall, keeping_of_find?_eq_some (h.find?_eq_some hsmall)]
    exact h.erase key
  | none =>
    have hnodup := ((large.keeping_sublist key).map RecentEntry.key).nodup (h.erase key).nodup
    cases hlarge : large.find? key with
    | none =>
      obtain ⟨hentries, hroom⟩ := h.keeping_of_absent hpos hsmall hlarge
      exact ⟨h.ttl, hentries, hnodup, Nat.le_of_lt hfits, hroom⟩
    | some e =>
      -- Only the small list may have to make room, for an entry that the large one replaces.
      have hothers := length_others h.nodup hlarge
      have hkept : small.entries.length ≤ (small.keeping key).length + 1 := by
        by_cases hspace : small.entries.length < small.capacity
        · rw [keeping_of_room hsmall hspace]
          omega
        · rw [keeping_of_full hsmall (Nat.le_of_not_lt hspace), List.length_dropLast]
          omega
      have hroom := h.room
      rw [keeping_of_find?_eq_some hlarge] at hnodup ⊢
      refine ⟨h.ttl, (small.keeping_sublist key).trans (h.others key), hnodup,
        Nat.le_of_lt hfits, ?_⟩
      dsimp only
      omega

private theorem insert (h : small.Within large) (key fragment : String) (now : Nat) :
    (small.insert key fragment now).Within (large.insert key fragment now) := by
  have hroom := h.room
  have hbounded := h.bounded
  have hnew : key ∉ (large.keeping key).map RecentEntry.key := fun hmem =>
    notMem_others large key (((large.keeping_sublist key).map _).subset hmem)
  unfold RecencyList.insert
  by_cases hzero : small.capacity = 0
  · rw [if_pos hzero]
    split
    · exact h
    · -- A list without any room holds nothing.
      have hnil : small.entries = [] := List.eq_nil_of_length_eq_zero (by omega)
      have hpos : 0 < large.capacity := by omega
      have hbounded' : large.entries.length ≤ large.capacity := by omega
      have hfits := length_keeping_lt h.nodup hpos hbounded' key
      refine ⟨h.ttl, hnil ▸ List.nil_sublist _, List.nodup_cons.2 ⟨hnew, ?_⟩, hbounded, ?_⟩
      · exact ((large.keeping_sublist key).map _).nodup (h.erase key).nodup
      · dsimp only [List.length_cons]
        omega
  · have hcapacity := h.capacity_le
    rw [if_neg hzero, if_neg (by omega)]
    exact (h.keeping (Nat.pos_of_ne_zero hzero) key).cons hnew
      (length_keeping_lt h.nodup_small (Nat.pos_of_ne_zero hzero) hbounded key)

private theorem clear (h : small.Within large) :
    Within { small with entries := [] } { large with entries := [] } := by
  have hlength := h.entries.length_le
  have hroom := h.room
  exact ⟨h.ttl, .slnil, List.nodup_nil, Nat.zero_le _, by dsimp only; omega⟩

private theorem answer (h : small.Within large) (request : CacheRequest) :
    (small.answer request).1.Kept (large.answer request).1 ∧
      (small.answer request).2.Within (large.answer request).2 := by
  cases request with
  | get key now => exact h.get key now
  | insert key fragment now => exact ⟨fun _ => rfl, h.insert key fragment now⟩
  | contains key =>
    refine ⟨fun hfound => ?_, h⟩
    obtain ⟨e, he⟩ := Option.isSome_iff_exists.1 hfound
    simp only [RecencyList.answer, he, h.find?_eq_some he]
  | hits key =>
    refine ⟨fun hfound => ?_, h⟩
    obtain ⟨e, he⟩ := Option.isSome_iff_exists.1 (Option.isSome_map.symm.trans hfound)
    simp only [RecencyList.answer, he, h.find?_eq_some he]
  | clear => exact ⟨fun _ => rfl, h.clear⟩

private theorem serve (h : small.Within large) (requests : List CacheRequest) :
    List.Forall₂ CacheAnswer.Kept (small.serve requests).1 (large.serve requests).1 ∧
      (small.serve requests).2.Within (large.serve requests).2 := by
  induction requests generalizing small large with
  | nil => exact ⟨.nil, h⟩
  | cons request rest ih =>
    obtain ⟨hkept, hafter⟩ := h.answer request
    obtain ⟨hrest, hlast⟩ := ih hafter
    exact ⟨.cons hkept hrest, hlast⟩

end Within

end RecencyList

private theorem FragmentCache.Reflects.find?_within {c d : FragmentCache}
    {small large : RecencyList}
    (hc : c.Reflects small) (hd : d.Reflects large) (h : small.Within large) {key : String}
    {e : CacheEntry} (hfound : c.find? key = some e) :
    (d.find? key).map CacheEntry.recent = some e.recent := by
  rw [← hd.find? key]
  apply h.find?_eq_some
  rw [hc.find? key, hfound, Option.map_some]

/-- Of two new caches that serve the same requests, whatever the order their entries are kept in and
whatever the clock shows, the one with more room always holds what the other one holds: the same
fragments, used as often and of the same age. What a request finds in the smaller cache it finds in
the larger one. -/
theorem larger_cache_holds {n m : Nat} (hle : n ≤ m) (ttl : Option Nat)
    (requests : List CacheRequest) :
    (∃ answers small, (FragmentCache.empty n ttl).Serves requests answers small) ∧
    (∃ answers large, (FragmentCache.empty m ttl).Serves requests answers large) ∧
    ∀ answers answers' small large,
      (FragmentCache.empty n ttl).Serves requests answers small →
      (FragmentCache.empty m ttl).Serves requests answers' large →
        (∀ key e, small.find? key = some e →
          (large.find? key).map CacheEntry.recent = some e.recent) ∧
        List.Forall₂ CacheAnswer.Kept answers answers' := by
  refine ⟨FragmentCache.exists_serves _ requests, FragmentCache.exists_serves _ requests, ?_⟩
  intro answers answers' small large hsmall hlarge
  have hempty : RecencyList.Within ⟨n, ttl, []⟩ ⟨m, ttl, []⟩ :=
    ⟨rfl, .slnil, List.nodup_nil, Nat.zero_le n, by simpa using hle⟩
  obtain ⟨hkept, hwithin⟩ := hempty.serve requests
  obtain ⟨rfl, hreflects⟩ := (FragmentCache.Reflects.empty n ttl).serves hsmall
  obtain ⟨rfl, hreflects'⟩ := (FragmentCache.Reflects.empty m ttl).serves hlarge
  exact ⟨fun key e => hreflects.find?_within hreflects' hwithin, hkept⟩

/-- A hit on `a` that only a cache with two places has, and then `c`, which makes one place free. -/
def hitBetween : List CacheRequest :=
  [.insert "a" "A" 0, .insert "b" "B" 1, .get "a" 2, .insert "c" "C" 3, .get "a" 11, .get "c" 12]

theorem larger_cache_holds_hitBetween :
    ∃ small large,
      (FragmentCache.empty 1 (some 10)).Serves hitBetween
        [.done, .done, .fragment none, .done, .fragment none, .fragment (some "C")] small ∧
      (FragmentCache.empty 2 (some 10)).Serves hitBetween
        [.done, .done, .fragment (some "A"), .done, .fragment none, .fragment (some "C")] large ∧
      ∀ key e, small.find? key = some e →
        (large.find? key).map CacheEntry.recent = some e.recent := by
  obtain ⟨small, hsmall⟩ : ∃ small, (FragmentCache.empty 1 (some 10)).Serves hitBetween
      [.done, .done, .fragment none, .done, .fragment none, .fragment (some "C")] small :=
    ⟨_, .next (.refl _) rfl <| .next (.refl _) rfl <| .next (.refl _) rfl <|
      .next (.refl _) rfl <| .next (.refl _) rfl <| .next (.refl _) rfl .done⟩
  obtain ⟨large, hlarge⟩ : ∃ large, (FragmentCache.empty 2 (some 10)).Serves hitBetween
      [.done, .done, .fragment (some "A"), .done, .fragment none, .fragment (some "C")] large :=
    ⟨_, .next (.refl _) rfl <| .next (.refl _) rfl <| .next (.refl _) rfl <|
      .next (.refl _) rfl <| .next (.refl _) rfl <| .next (.refl _) rfl .done⟩
  have hholds := larger_cache_holds (by decide : 1 ≤ 2) (some 10) hitBetween
  exact ⟨small, large, hsmall, hlarge, (hholds.2.2 _ _ small large hsmall hlarge).1⟩

end TreeRender
