import TreeRender.Action

/-!
# Registries that gain actions

Actions are published under consecutive ids. So a registry that gained some has those that it had,
and the new ones under ids of their own that no registry before it had given.
-/

namespace TreeRender

variable {F : Type}

namespace ActionId

theorem parse?_text {id : Nat} (h : id < UInt64.size) : parse? (text id) = some id := by
  have hdigit {c : Char} (hc : c ∈ Nat.toDigits 10 id) : c.isDigit = true :=
    Nat.isDigit_of_mem_toDigits (by decide) (by decide) hc
  have hvalue : digitsValue? (Nat.toDigits 10 id) = some id := by
    have hall : (Nat.toDigits 10 id).all Char.isDigit = true := List.all_eq_true.2 fun _ => hdigit
    have hempty : (Nat.toDigits 10 id).isEmpty = false :=
      List.isEmpty_eq_false_iff.2 Nat.toDigits_ne_nil
    rw [digitsValue?, hall, hempty]
    exact congrArg some Nat.ofDigitChars_ten_toDigits
  rw [parse?, text, String.toList_ofList]
  cases hdigits : Nat.toDigits 10 id with
  | nil => exact absurd hdigits Nat.toDigits_ne_nil
  | cons d rest =>
    have hplus : d ≠ '+' := by
      rintro rfl
      exact absurd (hdigit (hdigits ▸ List.mem_cons_self)) (by decide)
    rw [hdigits] at hvalue
    split
    · rename_i heq
      cases heq
      exact absurd rfl hplus
    · rename_i heq
      cases heq
      rw [hvalue, Option.filter_some, if_pos (decide_eq_true h)]
    · rename_i hneither
      exact absurd rfl (hneither _)

end ActionId

def numbered (first : Nat) (actions : List (Action F)) : List (Nat × Action F) :=
  (actions.zipIdx first).map Prod.swap

theorem numbered_append (first : Nat) (actions actions' : List (Action F)) :
    numbered first (actions ++ actions') =
      numbered first actions ++ numbered (first + actions.length) actions' := by
  rw [numbered, List.zipIdx_append, List.map_append]
  rfl

private theorem ids_numbered (first : Nat) (actions : List (Action F)) :
    (numbered first actions).map Prod.fst = List.range' first actions.length := by
  rw [numbered, List.map_map, ← List.zipIdx_map_snd]
  rfl

theorem actions_numbered (first : Nat) (actions : List (Action F)) :
    (numbered first actions).map Prod.snd = actions := by
  rw [numbered, List.map_map]
  exact List.zipIdx_map_fst first actions

private theorem mem_numbered {first : Nat} {actions : List (Action F)} {entry : Nat × Action F}
    (h : entry ∈ numbered first actions) :
    first ≤ entry.1 ∧ entry.1 < first + actions.length := by
  have hid : entry.1 ∈ (numbered first actions).map Prod.fst := List.mem_map_of_mem h
  rw [ids_numbered] at hid
  exact List.mem_range'_1.1 hid

namespace Registry

/-- The registry after some actions were published one after the other. -/
def gain (r : Registry F) (actions : List (Action F)) : Registry F where
  nextId := r.nextId + actions.length
  actions := r.actions ++ numbered r.nextId actions

theorem gain_nil (r : Registry F) : r.gain [] = r := by
  rw [gain, numbered, List.zipIdx_nil, List.map_nil, List.append_nil]
  rfl

theorem gain_gain (r : Registry F) (actions actions' : List (Action F)) :
    (r.gain actions).gain actions' = r.gain (actions ++ actions') := by
  simp only [gain, numbered_append, List.length_append, List.append_assoc, Nat.add_assoc]

private theorem publish_eq_gain (r : Registry F) (event : String) (handler : F) :
    r.publish event handler = (r.nextId, r.gain [⟨event, handler⟩]) := rfl

/-- `r'` is `r` with `entries` published, in whatever order. -/
def Gains (r : Registry F) (entries : List (Nat × Action F)) (r' : Registry F) : Prop :=
  ∃ actions, r' = r.gain actions ∧ entries.Perm (numbered r.nextId actions)

namespace Gains

variable {r r' r'' : Registry F} {entries entries' : List (Nat × Action F)}

theorem refl (r : Registry F) : r.Gains [] r := ⟨[], r.gain_nil.symm, .nil⟩

theorem trans (h : r.Gains entries r') (h' : r'.Gains entries' r'') :
    r.Gains (entries ++ entries') r'' := by
  obtain ⟨actions, rfl, hentries⟩ := h
  obtain ⟨actions', rfl, hentries'⟩ := h'
  refine ⟨actions ++ actions', r.gain_gain actions actions', ?_⟩
  rw [numbered_append]
  exact hentries.append hentries'

theorem perm (h : r.Gains entries r') (hperm : entries'.Perm entries) : r.Gains entries' r' := by
  obtain ⟨actions, hgain, hentries⟩ := h
  exact ⟨actions, hgain, hperm.trans hentries⟩

theorem publish (r : Registry F) (event : String) (handler : F) :
    r.Gains [(r.nextId, ⟨event, handler⟩)] (r.publish event handler).2 :=
  ⟨[⟨event, handler⟩], congrArg Prod.snd (r.publish_eq_gain event handler), .refl _⟩

theorem nextId (h : r.Gains entries r') : r'.nextId = r.nextId + entries.length := by
  obtain ⟨actions, rfl, hentries⟩ := h
  rw [hentries.length_eq, numbered, List.length_map, List.length_zipIdx]
  rfl

theorem bounds (h : r.Gains entries r') {entry : Nat × Action F} (hentry : entry ∈ entries) :
    r.nextId ≤ entry.1 ∧ entry.1 < r'.nextId := by
  obtain ⟨actions, rfl, hentries⟩ := h
  exact mem_numbered (hentries.mem_iff.1 hentry)

theorem nodup (h : r.Gains entries r') : (entries.map Prod.fst).Nodup := by
  obtain ⟨actions, rfl, hentries⟩ := h
  rw [(hentries.map Prod.fst).nodup_iff, ids_numbered]
  exact List.nodup_range'

theorem drop (h : r.Gains entries r') :
    r'.actions = r.actions ++ r'.actions.drop r.actions.length ∧
      entries.Perm (r'.actions.drop r.actions.length) := by
  obtain ⟨actions, rfl, hentries⟩ := h
  have hdrop : (r.gain actions).actions.drop r.actions.length = numbered r.nextId actions :=
    List.drop_left
  rw [hdrop]
  exact ⟨rfl, hentries⟩

end Gains

/-- Each id stands for one action, and all of them were given before. -/
structure Sound (r : Registry F) : Prop where
  nodup : (r.actions.map Prod.fst).Nodup
  given : ∀ entry ∈ r.actions, entry.1 < r.nextId

theorem sound_empty : ({} : Registry F).Sound := ⟨List.nodup_nil, fun _ h => nomatch h⟩

theorem sound_drain (r : Registry F) : r.drain.2.Sound := ⟨List.nodup_nil, fun _ h => nomatch h⟩

theorem Sound.gains {r r' : Registry F} (hr : r.Sound) {entries : List (Nat × Action F)}
    (h : r.Gains entries r') : r'.Sound := by
  obtain ⟨hactions, hentries⟩ := h.drop
  have hnew {entry : Nat × Action F} (hentry : entry ∈ r'.actions.drop r.actions.length) :
      r.nextId ≤ entry.1 ∧ entry.1 < r'.nextId := h.bounds (hentries.mem_iff.2 hentry)
  have hgrows : r.nextId ≤ r'.nextId := by
    rw [h.nextId]
    exact Nat.le_add_right _ _
  constructor
  · rw [hactions, List.map_append]
    refine List.nodup_append.2 ⟨hr.nodup, (hentries.map Prod.fst).nodup_iff.1 h.nodup, ?_⟩
    intro id hid id' hid' heq
    obtain ⟨entry, hentry, rfl⟩ := List.mem_map.1 hid
    obtain ⟨entry', hentry', rfl⟩ := List.mem_map.1 hid'
    have hold := hr.given entry hentry
    have hfresh := (hnew hentry').1
    omega
  · intro entry hentry
    rw [hactions] at hentry
    rcases List.mem_append.1 hentry with hold | hfresh
    · exact Nat.lt_of_lt_of_le (hr.given entry hold) hgrows
    · exact (hnew hfresh).2

theorem Sound.get?_eq {r : Registry F} (hr : r.Sound) {id : Nat} {action : Action F}
    (h : (id, action) ∈ r.actions) : r.get? id = some action := by
  have hnodup := hr.nodup
  rw [get?]
  generalize r.actions = entries at h hnodup
  induction entries with
  | nil => cases h
  | cons entry rest ih =>
    obtain ⟨id', action'⟩ := entry
    obtain ⟨hnew, hrest⟩ := List.nodup_cons.1 hnodup
    rcases List.mem_cons.1 h with heq | hmem
    · cases heq
      exact List.lookup_cons_self
    · have hne : id ≠ id' := by
        rintro rfl
        exact hnew (List.mem_map.2 ⟨_, hmem, rfl⟩)
      rw [List.lookup_cons, beq_false_of_ne hne]
      exact ih hmem hrest

end Registry

end TreeRender
