import TreeRender.Proofs.Json.Yields

/-!
# Keys of JSON objects

No object that is read from a text has a key twice: of members with the same key the last one
counts, in the place of the first.
-/

namespace TreeRender.Json

mutual

def DistinctKeys : Json → Prop
  | .array items => AllDistinct items
  | .object members => (members.map Prod.fst).Nodup ∧ MembersDistinct members
  | _ => True

def AllDistinct : List Json → Prop
  | [] => True
  | item :: rest => item.DistinctKeys ∧ AllDistinct rest

def MembersDistinct : List (String × Json) → Prop
  | [] => True
  | (_, value) :: rest => value.DistinctKeys ∧ MembersDistinct rest

end

private theorem MembersDistinct.setKey {key : String} {value : Json}
    {members : List (String × Json)}
    (hvalue : value.DistinctKeys) (h : MembersDistinct members) :
    MembersDistinct (setKey key value members) := by
  induction members with
  | nil => exact ⟨hvalue, trivial⟩
  | cons member rest ih =>
    unfold TreeRender.setKey
    split
    · exact ⟨hvalue, h.2⟩
    · exact ⟨h.1, ih h.2⟩

namespace Reader

private theorem yields_itemRounds {item : Reader Json} (h : item.Yields DistinctKeys) (rounds : Nat)
    (first : Bool) : Yields AllDistinct (itemRounds item rounds first) := by
  induction rounds generalizing first with
  | zero => exact .fail _
  | succ rounds ih =>
    rw [itemRounds]
    apply Yields.after
    intro more
    cases more with
    | false => exact .pure trivial
    | true => exact h.bind fun _ ha => (ih false).bind fun _ hrest => .pure ⟨ha, hrest⟩

private theorem yields_itemsRest {item : Reader Json} (h : item.Yields DistinctKeys) :
    (itemsRest item).Yields AllDistinct :=
  Yields.after fun _ => yields_itemRounds h _ _

private theorem yields_members {nested : Reader Json} (h : nested.Yields DistinctKeys) :
    Reader.Yields (fun members => (members.map Prod.fst).Nodup ∧ MembersDistinct members)
      (membersRest (fun key members => do
        colon
        return setKey key (← nested) members) []) := by
  refine yields_membersRest (fun key members hmembers => ?_) ⟨List.nodup_nil, trivial⟩
  apply Yields.after
  intro _
  apply h.bind
  intro value hvalue
  exact .pure ⟨nodup_keys_setKey key value hmembers.1, hmembers.2.setKey hvalue⟩

private theorem yields_valueOver {nested : Option (Reader Json)}
    (h : ∀ reader, nested = some reader → reader.Yields DistinctKeys) :
    (valueOver nested).Yields DistinctKeys := by
  unfold valueOver
  apply Yields.after
  rintro (_ | c)
  · exact .fail _
  dsimp only
  split
  · exact .after fun _ => .after fun _ => .pure trivial
  split
  · exact .after fun _ => .after fun _ => .pure trivial
  split
  · exact .after fun _ => .after fun _ => .pure trivial
  split
  · exact .after fun _ => .pure trivial
  split
  · exact .after fun _ => .after fun _ => .pure trivial
  cases nested with
  | none => exact .fail _
  | some reader =>
    have hreader := h reader rfl
    dsimp only
    split
    · exact .after fun _ => (yields_itemsRest hreader).bind fun _ hitems => .pure hitems
    split
    · exact .after fun _ => (yields_members hreader).bind fun _ hmembers => .pure hmembers
    · exact .fail _

private theorem yields_value (levels : Nat) : (value levels).Yields DistinctKeys := by
  induction levels with
  | zero => exact yields_valueOver fun _ h => nomatch h
  | succ levels ih =>
    refine yields_valueOver fun reader h => ?_
    cases h
    exact ih

end Reader

/-- In a value that is read from a text, no object has a key twice. -/
theorem distinctKeys_parse {text : String} {v : Json} (h : parse text = .ok v) :
    v.DistinctKeys :=
  (Reader.yields_value 127).of_run_eq_ok h

end TreeRender.Json
