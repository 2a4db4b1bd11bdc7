import Mathlib.Data.List.Nodup
import TreeRender.Proofs.Cache.Bounded
import TreeRender.Proofs.Cache.Recency

/-!
# Least recently used goes first

A cache gives stamps instead of keeping an order. The stamps of its entries all differ, so they put
the entries in one order, and in this order a cache serves every request as a recency list does.
-/

namespace TreeRender

namespace CacheEntry

def recent (e : CacheEntry) : RecentEntry := ⟨e.key, e.fragment, e.hits, e.inserted⟩

private theorem recent_use (e : CacheEntry) (stamp : Nat) : (e.use stamp).recent = e.recent.hit
    := rfl

private theorem isExpired_recent (e : CacheEntry) (ttl : Option Nat) (now : Nat) :
    e.recent.isExpired ttl now = e.isExpired ttl now := by
  cases ttl with
  | none => rfl
  | some ttl =>
    change decide (e.inserted + ttl < now) = decide (ttl < now - e.inserted)
    rw [decide_eq_decide]
    omega

end CacheEntry

/-- Entries under different keys, in the order of their last use, all stamped by `stamp` or before. -/
structure InOrder (stamp : Nat) (entries : List CacheEntry) : Prop where
  descending : entries.Pairwise fun e e' => e'.lastUsed < e.lastUsed
  stamped : ∀ e ∈ entries, e.lastUsed ≤ stamp
  nodup : (entries.map CacheEntry.key).Nodup

namespace InOrder

variable {stamp : Nat} {entries : List CacheEntry}

theorem nil (stamp : Nat) : InOrder stamp [] := ⟨.nil, by simp, List.nodup_nil⟩

theorem mono (h : InOrder stamp entries) {later : Nat} (hle : stamp ≤ later) :
    InOrder later entries :=
  ⟨h.descending, fun e he => Nat.le_trans (h.stamped e he) hle, h.nodup⟩

private theorem sublist (h : InOrder stamp entries) {kept : List CacheEntry}
    (hkept : kept.Sublist entries) :
    InOrder stamp kept :=
  ⟨h.descending.sublist hkept, fun e he => h.stamped e (hkept.subset he),
    (hkept.map _).nodup h.nodup⟩

theorem cons (h : InOrder stamp entries) {e : CacheEntry} (hstamp : e.lastUsed = stamp + 1)
    (hkey : e.key ∉ entries.map CacheEntry.key) : InOrder (stamp + 1) (e :: entries) where
  descending := by
    refine List.pairwise_cons.2 ⟨fun e' he' => ?_, h.descending⟩
    have hle := h.stamped e' he'
    omega
  stamped := by
    intro e' he'
    rcases List.mem_cons.1 he' with rfl | he'
    · exact Nat.le_of_eq hstamp
    · exact Nat.le_succ_of_le (h.stamped e' he')
  nodup := List.nodup_cons.2 ⟨hkey, h.nodup⟩

private theorem filter_last {front : List CacheEntry} {last : CacheEntry}
    (h : InOrder stamp (front ++ [last])) :
    (front ++ [last]).filter (·.key ≠ last.key) = front := by
  have hnodup := h.nodup
  rw [List.map_append] at hnodup
  have hfront : ∀ e ∈ front, e.key ≠ last.key := fun e he =>
    (List.nodup_append.1 hnodup).2.2 _ (List.mem_map_of_mem he) _ (by simp)
  rw [List.filter_append, List.filter_eq_self.2 (by simpa using hfront),
    List.filter_cons_of_neg (by simp), List.filter_nil, List.append_nil]

end InOrder

private theorem find?_recent (entries : List CacheEntry) (key : String) :
    (entries.map CacheEntry.recent).find? (·.key = key) =
      (entries.find? (·.key = key)).map CacheEntry.recent :=
  List.find?_map ..

private theorem filter_recent (entries : List CacheEntry) (key : String) :
    (entries.map CacheEntry.recent).filter (·.key ≠ key) =
      (entries.filter (·.key ≠ key)).map CacheEntry.recent :=
  List.filter_map ..

theorem find?_eq_some_iff {α : Type} {name : α → String} {entries : List α}
    (hnodup : (entries.map name).Nodup) {key : String} {e : α} :
    entries.find? (name · = key) = some e ↔ e ∈ entries ∧ name e = key := by
  constructor
  · intro hfound
    exact ⟨List.mem_of_find?_eq_some hfound, by simpa using List.find?_some hfound⟩
  · rintro ⟨hmem, rfl⟩
    obtain ⟨e', hfound⟩ : ∃ e', entries.find? (name · = name e) = some e' := by
      rw [← Option.isSome_iff_exists, List.find?_isSome]
      exact ⟨e, hmem, by simp⟩
    have hkey : name e' = name e := by simpa using List.find?_some hfound
    rw [hfound, List.inj_on_of_nodup_map hnodup (List.mem_of_find?_eq_some hfound) hmem hkey]

private theorem find?_perm {entries entries' : List CacheEntry} (h : entries.Perm entries')
    (hnodup : (entries.map CacheEntry.key).Nodup) (key : String) :
    entries.find? (·.key = key) = entries'.find? (·.key = key) := by
  have hnodup' : (entries'.map CacheEntry.key).Nodup := (h.map _).nodup_iff.1 hnodup
  ext1 e
  rw [find?_eq_some_iff hnodup, find?_eq_some_iff hnodup', h.mem_iff]

theorem perm_update {α : Type} {name : α → String} {entries : List α}
    (hnodup : (entries.map name).Nodup) {entry : α} (hentry : entry ∈ entries) (f : α → α) :
    (entries.map fun e => if name e = name entry then f e else e).Perm
      (f entry :: entries.filter (name · ≠ name entry)) := by
  induction entries with
  | nil => cases hentry
  | cons e rest ih =>
    obtain ⟨hkey, hrest⟩ := List.nodup_cons.1 hnodup
    rcases List.mem_cons.1 hentry with rfl | hmem
    · have hothers : ∀ e' ∈ rest, name e' ≠ name entry := by
        intro e' he' heq
        exact hkey (heq ▸ List.mem_map_of_mem he')
      have hmap : (rest.map fun e => if name e = name entry then f e else e) = rest := by
        rw [List.map_congr_left fun e' he' => if_neg (hothers e' he'), List.map_id']
      have hfilter : rest.filter (name · ≠ name entry) = rest :=
        List.filter_eq_self.2 fun e' he' => by simpa using hothers e' he'
      rw [List.map_cons, if_pos rfl, hmap, List.filter_cons_of_neg (by simp), hfilter]
    · have hne : name e ≠ name entry := fun heq => hkey (heq ▸ List.mem_map_of_mem hmem)
      rw [List.map_cons, if_neg hne, List.filter_cons_of_pos (by simpa using hne)]
      exact ((ih hrest hmem).cons e).trans (.swap ..)

private theorem FragmentCache.oldest?_le {entries : List CacheEntry} {o : CacheEntry}
    (h : oldest? entries = some o) : ∀ e ∈ entries, o.lastUsed ≤ e.lastUsed := by
  induction entries generalizing o with
  | nil => simp
  | cons e rest ih =>
    rw [oldest?] at h
    rw [List.forall_mem_cons]
    cases hrest : oldest? rest with
    | none =>
      have hnil : rest = [] := by
        by_contra hne
        obtain ⟨o', ho'⟩ := oldest?_isSome hne
        rw [hrest] at ho'
        cases ho'
      simp only [hrest, Option.some.injEq] at h
      subst h hnil
      simp
    | some o' =>
      have hle := ih hrest
      simp only [hrest] at h
      split at h
      · rename_i hfirst
        cases h
        exact ⟨Nat.le_refl _, fun e' he' => Nat.le_trans hfirst (hle e' he')⟩
      · rename_i hlater
        cases h
        exact ⟨by omega, hle⟩

private theorem oldest?_eq {stamp : Nat} {entries inOrder : List CacheEntry} {last : CacheEntry}
    (horder : InOrder stamp (inOrder ++ [last])) (hperm : entries.Perm (inOrder ++ [last])) :
    FragmentCache.oldest? entries = some last := by
  have hlast : last ∈ entries := hperm.mem_iff.2 (by simp)
  obtain ⟨o, ho⟩ := FragmentCache.oldest?_isSome (List.ne_nil_of_mem hlast)
  have hle : o.lastUsed ≤ last.lastUsed := FragmentCache.oldest?_le ho last hlast
  rcases List.mem_append.1 (hperm.mem_iff.1 (FragmentCache.oldest?_mem ho)) with hmem | hmem
  · have hlt : last.lastUsed < o.lastUsed :=
      (List.pairwise_append.1 horder.descending).2.2 o hmem last List.mem_cons_self
    omega
  · rw [ho, List.mem_singleton.1 hmem]

namespace FragmentCache

private theorem erase_of_notMem {c : FragmentCache} {key : String} (hkey : key ∉ c.keys) :
    c.erase key = c := by
  have hentries : c.entries.filter (·.key ≠ key) = c.entries :=
    List.filter_eq_self.2 fun e he => by
      simpa using fun heq : e.key = key => hkey (heq ▸ List.mem_map_of_mem he)
  rw [erase, hentries]

/-- A cache holds the entries of a recency list, stamped in its order. -/
def Reflects (c : FragmentCache) (l : RecencyList) : Prop :=
  ∃ entries, c.entries.Perm entries ∧ InOrder c.stamp entries ∧
    l = ⟨c.capacity, c.ttl, entries.map CacheEntry.recent⟩

namespace Reflects

variable {c : FragmentCache} {l : RecencyList}

theorem empty (capacity : Nat) (ttl : Option Nat) :
    (empty capacity ttl).Reflects ⟨capacity, ttl, []⟩ :=
  ⟨[], .refl _, .nil _, rfl⟩

private theorem capacity_eq (h : c.Reflects l) : l.capacity = c.capacity := by
  obtain ⟨entries, -, -, rfl⟩ := h
  rfl

private theorem ttl_eq (h : c.Reflects l) : l.ttl = c.ttl := by
  obtain ⟨entries, -, -, rfl⟩ := h
  rfl

private theorem nodup (h : c.Reflects l) : c.keys.Nodup := by
  obtain ⟨entries, hperm, horder, -⟩ := h
  exact (hperm.map _).nodup_iff.2 horder.nodup

private theorem entries_perm (h : c.Reflects l) : (c.entries.map CacheEntry.recent).Perm l.entries
    := by
  obtain ⟨entries, hperm, -, rfl⟩ := h
  exact hperm.map _

theorem perm (h : c.Reflects l) {entries : List CacheEntry} (hentries : c.entries.Perm entries) :
    { c with entries }.Reflects l := by
  obtain ⟨inOrder, hperm, horder, hl⟩ := h
  exact ⟨inOrder, hentries.symm.trans hperm, horder, hl⟩

theorem find? (h : c.Reflects l) (key : String) :
    l.find? key = (c.find? key).map CacheEntry.recent := by
  have hnodup := h.nodup
  obtain ⟨entries, hperm, -, rfl⟩ := h
  rw [RecencyList.find?, FragmentCache.find?, find?_perm hperm hnodup, find?_recent]

private theorem skip (h : c.Reflects l) : { c with stamp := c.stamp + 1 }.Reflects l := by
  obtain ⟨entries, hperm, horder, hl⟩ := h
  exact ⟨entries, hperm, horder.mono (Nat.le_succ _), hl⟩

private theorem erase (h : c.Reflects l) (key : String) :
    (c.erase key).Reflects { l with entries := l.others key } := by
  obtain ⟨entries, hperm, horder, rfl⟩ := h
  refine ⟨_, hperm.filter _, horder.sublist List.filter_sublist, ?_⟩
  rw [RecencyList.others, filter_recent, FragmentCache.erase]

theorem cons (h : c.Reflects l) {e : CacheEntry} {entries : List CacheEntry}
    (hstamp : e.lastUsed = c.stamp + 1) (hkey : e.key ∉ c.keys)
    (hentries : entries.Perm (e :: c.entries)) :
    { c with entries, stamp := c.stamp + 1 }.Reflects
      { l with entries := e.recent :: l.entries } := by
  obtain ⟨inOrder, hperm, horder, rfl⟩ := h
  have hnew : e.key ∉ inOrder.map CacheEntry.key := fun hmem =>
    hkey ((hperm.map _).mem_iff.2 hmem)
  exact ⟨e :: inOrder, hentries.trans (hperm.cons e), horder.cons hstamp hnew, rfl⟩

private theorem get (h : c.Reflects l) (key : String) (now : Nat) :
    (l.get key now).1 = (c.get key now).1 ∧ (c.get key now).2.Reflects (l.get key now).2 := by
  have hfind := h.find? key
  unfold RecencyList.get FragmentCache.get
  cases hfound : c.find? key with
  | none =>
    rw [hfound, Option.map_none] at hfind
    rw [hfind]
    exact ⟨rfl, h.skip⟩
  | some e =>
    obtain ⟨hmem, rfl⟩ := (find?_eq_some_iff h.nodup).1 hfound
    rw [hfound, Option.map_some] at hfind
    have hexpired : e.recent.isExpired l.ttl now = e.isExpired c.ttl now := by
      rw [h.ttl_eq, CacheEntry.isExpired_recent]
    simp only [hfind, hexpired]
    split
    · exact ⟨rfl, h.erase e.key⟩
    · have hfront := (h.erase e.key).cons (e := e.use (c.stamp + 1)) rfl
        (notMem_keys_erase e.key) (perm_update h.nodup hmem (·.use (c.stamp + 1)))
      rw [CacheEntry.recent_use] at hfront
      exact ⟨rfl, hfront⟩

private theorem length_eq (h : c.Reflects l) : l.entries.length = c.size := by
  obtain ⟨entries, hperm, -, rfl⟩ := h
  rw [List.length_map, ← hperm.length_eq, size]

private theorem dropLast (h : c.Reflects l) (hne : c.entries ≠ []) :
    ∃ o, oldest? c.entries = some o ∧
      (c.erase o.key).Reflects { l with entries := l.entries.dropLast } := by
  obtain ⟨entries, hperm, horder, rfl⟩ := h
  have hne' : entries ≠ [] := by
    rintro rfl
    exact hne hperm.eq_nil
  obtain ⟨front, last, rfl⟩ : ∃ front last, entries = front ++ [last] :=
    ⟨_, _, (List.dropLast_append_getLast hne').symm⟩
  refine ⟨last, oldest?_eq horder hperm, front, ?_, ?_, ?_⟩
  · have hfilter := hperm.filter fun e => e.key ≠ last.key
    rw [horder.filter_last] at hfilter
    exact hfilter
  · exact horder.sublist (List.sublist_append_left _ _)
  · simp [FragmentCache.erase]

private theorem makeRoom (h : c.Reflects l) (hpos : 0 < c.capacity) (key : String) :
    ((c.makeRoom key).erase key).Reflects { l with entries := l.keeping key } := by
  have hcontains : (l.find? key).isSome = c.contains key := by
    rw [h.find?, Option.isSome_map, contains]
  have hroom : l.entries.length < l.capacity ↔ c.size < c.capacity := by
    rw [h.length_eq, h.capacity_eq]
  unfold RecencyList.keeping FragmentCache.makeRoom
  rw [hcontains]
  cases hkey : c.contains key with
  | true =>
    rw [Bool.not_true, Bool.and_false, if_neg Bool.false_ne_true, if_pos rfl]
    exact h.erase key
  | false =>
    have habsent : key ∉ c.keys := by
      intro hmem
      obtain ⟨e, he, rfl⟩ := List.mem_map.1 hmem
      rw [contains_eq_true.2 ⟨e, he, rfl⟩] at hkey
      cases hkey
    rw [Bool.not_false, Bool.and_true, if_neg Bool.false_ne_true]
    by_cases hfull : c.capacity ≤ c.size
    · rw [if_pos (decide_eq_true hfull), if_neg (mt hroom.1 (Nat.not_lt.2 hfull))]
      have hne : c.entries ≠ [] := List.ne_nil_of_length_pos (Nat.lt_of_lt_of_le hpos hfull)
      obtain ⟨o, ho, herased⟩ := h.dropLast hne
      simp only [ho]
      have hrest : key ∉ (c.erase o.key).keys := fun hmem =>
        habsent ((List.filter_sublist.map _).subset hmem)
      rw [erase_of_notMem hrest]
      exact herased
    · rw [if_neg (by simpa using hfull), if_pos (hroom.2 (Nat.lt_of_not_le hfull)),
        erase_of_notMem habsent]
      exact h

private theorem insert (h : c.Reflects l) (key fragment : String) (now : Nat) :
    (c.insert key fragment now).Reflects (l.insert key fragment now) := by
  unfold FragmentCache.insert RecencyList.insert
  by_cases hzero : c.capacity = 0
  · rw [if_pos hzero, if_pos (h.capacity_eq.trans hzero)]
    exact h
  · rw [if_neg hzero, if_neg (mt h.capacity_eq.symm.trans hzero)]
    have hroom := h.makeRoom (Nat.pos_of_ne_zero hzero) key
    exact hroom.cons (e := ⟨key, fragment, 0, (c.makeRoom key).stamp + 1, now⟩) rfl
      (notMem_keys_erase key) (List.perm_append_singleton ..)

private theorem clear (h : c.Reflects l) : c.clear.Reflects { l with entries := [] } := by
  obtain ⟨entries, -, -, rfl⟩ := h
  exact ⟨[], .refl _, .nil _, rfl⟩

private theorem answer (h : c.Reflects l) (request : CacheRequest) :
    (c.answer request).1 = (l.answer request).1 ∧
      (c.answer request).2.Reflects (l.answer request).2 := by
  cases request with
  | get key now =>
    obtain ⟨hfragment, hafter⟩ := h.get key now
    exact ⟨congrArg CacheAnswer.fragment hfragment.symm, hafter⟩
  | insert key fragment now => exact ⟨rfl, h.insert key fragment now⟩
  | contains key =>
    refine ⟨congrArg CacheAnswer.present ?_, h⟩
    rw [h.find?, Option.isSome_map, contains]
  | hits key =>
    refine ⟨congrArg CacheAnswer.count ?_, h⟩
    rw [h.find?, Option.map_map, hits?]
    rfl
  | clear => exact ⟨rfl, h.clear⟩

theorem serves (h : c.Reflects l) {requests : List CacheRequest} {answers : List CacheAnswer}
    {last : FragmentCache} (hserves : c.Serves requests answers last) :
    answers = (l.serve requests).1 ∧ last.Reflects (l.serve requests).2 := by
  induction hserves generalizing l with
  | done => exact ⟨rfl, h⟩
  | @next c entries request answer d requests answers last hperm hanswer _ ih =>
    obtain ⟨hsame, hafter⟩ := (h.perm hperm).answer request
    rw [hanswer] at hsame hafter
    obtain ⟨hrest, hlast⟩ := ih hafter
    exact ⟨congrArg₂ List.cons hsame hrest, hlast⟩

end Reflects

private theorem Bounded.answer {config : Config} {c : FragmentCache} (h : c.Bounded config)
    (request : CacheRequest) : (c.answer request).2.Bounded config := by
  cases request with
  | get key now => exact h.get key now
  | insert key fragment now => exact h.insert key fragment now
  | contains | hits => exact h
  | clear => exact h.clear

private theorem Serves.bounded {config : Config} {c last : FragmentCache}
    {requests : List CacheRequest}
    {answers : List CacheAnswer} (hserves : c.Serves requests answers last)
    (h : c.Bounded config) : last.Bounded config := by
  induction hserves with
  | done => exact h
  | @next c entries request answer d requests answers last hperm hanswer _ ih =>
    have hsize : entries.length ≤ config.cacheSize := hperm.length_eq ▸ h.size
    have hentries : { c with entries }.Bounded config :=
      ⟨h.capacity, hsize, (hperm.map _).nodup_iff.1 h.nodup⟩
    have hafter := hentries.answer request
    rw [hanswer] at hafter
    exact ih hafter

private theorem stamp_answer_le (c : FragmentCache) (request : CacheRequest) :
    (c.answer request).2.stamp ≤ c.stamp + 1 := by
  cases request with
  | get key now =>
    change (c.get key now).2.stamp ≤ _
    unfold FragmentCache.get
    split
    · exact Nat.le_refl _
    · split
      · exact Nat.le_succ _
      · exact Nat.le_refl _
  | insert key fragment now =>
    have hroom : (c.makeRoom key).stamp = c.stamp := by
      unfold makeRoom
      split
      · split <;> rfl
      · rfl
    change (c.insert key fragment now).stamp ≤ _
    unfold FragmentCache.insert
    split
    · exact Nat.le_succ _
    · exact Nat.le_of_eq (congrArg (· + 1) hroom)
  | contains | hits | clear => exact Nat.le_succ _

private theorem Serves.stamp_le {c last : FragmentCache} {requests : List CacheRequest}
    {answers : List CacheAnswer} (hserves : c.Serves requests answers last) :
    last.stamp ≤ c.stamp + requests.length := by
  induction hserves with
  | done => exact Nat.le_refl _
  | @next c entries request answer d requests answers last _ hanswer _ ih =>
    have hstep := stamp_answer_le { c with entries } request
    rw [hanswer] at hstep
    have hstep : d.stamp ≤ c.stamp + 1 := hstep
    rw [List.length_cons]
    omega

end FragmentCache

/-- A new cache answers requests as a recency list does, whatever the order its entries are kept in
and whatever the clock shows. It is left with the entries of the list, within its capacity, and has
given no more stamps than there were requests. -/
theorem cache_serves_as_recency_list (capacity : Nat) (ttl : Option Nat)
    (requests : List CacheRequest) :
    (∃ answers last, (FragmentCache.empty capacity ttl).Serves requests answers last) ∧
      ∀ answers last, (FragmentCache.empty capacity ttl).Serves requests answers last →
        answers = (RecencyList.serve ⟨capacity, ttl, []⟩ requests).1 ∧
        (last.entries.map CacheEntry.recent).Perm
          (RecencyList.serve ⟨capacity, ttl, []⟩ requests).2.entries ∧
        last.size ≤ capacity ∧ last.stamp ≤ requests.length := by
  refine ⟨FragmentCache.exists_serves _ requests, fun answers last hserves => ?_⟩
  obtain ⟨hanswers, hlast⟩ := (FragmentCache.Reflects.empty capacity ttl).serves hserves
  have hempty : (FragmentCache.empty capacity ttl).Bounded
      { cacheSize := capacity, cacheTtl := ttl } := FragmentCache.bounded_empty
  have hbounded := hserves.bounded hempty
  have hstamp : last.stamp ≤ 0 + requests.length := hserves.stamp_le
  rw [Nat.zero_add] at hstamp
  exact ⟨hanswers, hlast.entries_perm, hbounded.size, hstamp⟩

/-- Of two entries the one that was not asked for makes room, and the other goes when it is asked
for too late. -/
theorem cache_serves_two_entries :
    ∃ last, (FragmentCache.empty 2 (some 10)).Serves
      [.insert "a" "A" 0, .insert "b" "B" 0, .get "a" 5, .insert "c" "C" 6, .contains "b",
        .hits "a", .get "a" 11, .contains "a"]
      [.done, .done, .fragment (some "A"), .done, .present false, .count (some 1), .fragment none,
        .present false] last := by
  obtain ⟨⟨answers, last, hserves⟩, hall⟩ := cache_serves_as_recency_list 2 (some 10)
    [.insert "a" "A" 0, .insert "b" "B" 0, .get "a" 5, .insert "c" "C" 6, .contains "b",
      .hits "a", .get "a" 11, .contains "a"]
  have hanswers : answers = [.done, .done, .fragment (some "A"), .done, .present false,
      .count (some 1), .fragment none, .present false] := by
    rw [(hall answers last hserves).1]
    decide
  rw [hanswers] at hserves
  exact ⟨last, hserves⟩

end TreeRender
