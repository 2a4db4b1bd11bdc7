import TreeRender.Node.Basic

/-!
# Building elements

Elements are built up from a bare tag. Setting a key again replaces its value in place, and content
added to existing content makes a collection.
-/

namespace TreeRender

variable {F N : Type}

/-- Puts `value` under `key`: in place of the value already there, or at the end. -/
def setKey (key : String) (value : N) : List (String × N) → List (String × N)
  | [] => [(key, value)]
  | (k, v) :: rest => if k = key then (k, value) :: rest else (k, v) :: setKey key value rest

theorem mem_keys_setKey {key k : String} {value : N} {entries : List (String × N)}
    (h : k ∈ (setKey key value entries).map Prod.fst) : k = key ∨ k ∈ entries.map Prod.fst := by
  induction entries with
  | nil => simpa [setKey] using h
  | cons entry rest ih =>
    obtain ⟨k', v⟩ := entry
    unfold setKey at h
    split at h
    · exact .inr h
    · rcases List.mem_cons.1 h with rfl | h
      · simp
      · rcases ih h with h | h
        · exact .inl h
        · exact .inr (List.mem_cons_of_mem _ h)

theorem nodup_keys_setKey {entries : List (String × N)} (key : String) (value : N)
    (h : (entries.map Prod.fst).Nodup) : ((setKey key value entries).map Prod.fst).Nodup := by
  induction entries with
  | nil => simp [setKey]
  | cons entry rest ih =>
    obtain ⟨k, v⟩ := entry
    unfold setKey
    obtain ⟨hk, hrest⟩ := List.nodup_cons.1 h
    split
    · exact h
    · rename_i hne
      refine List.nodup_cons.2 ⟨fun hmem => ?_, ih hrest⟩
      rcases mem_keys_setKey hmem with heq | hmem
      · exact hne heq
      · exact hk hmem

theorem setKey_of_notMem {key : String} {value : N} {entries : List (String × N)}
    (h : key ∉ entries.map Prod.fst) : setKey key value entries = entries ++ [(key, value)] := by
  induction entries with
  | nil => rfl
  | cons entry rest ih =>
    obtain ⟨k, v⟩ := entry
    simp only [List.map_cons, List.mem_cons, not_or] at h
    rw [setKey, if_neg (Ne.symm h.1), ih h.2, List.cons_append]

theorem any_setKey {p : String × N → Bool} {key : String} {value : N}
    {entries : List (String × N)} (hvalue : p (key, value) = false) (h : entries.any p = false) :
    (setKey key value entries).any p = false := by
  induction entries with
  | nil => simp [setKey, hvalue]
  | cons entry rest ih =>
    obtain ⟨k, v⟩ := entry
    rw [List.any_cons, Bool.or_eq_false_iff] at h
    unfold setKey
    split
    · rename_i hk
      rw [List.any_cons, hk, hvalue, h.2]
      rfl
    · rw [List.any_cons, h.1, ih h.2]
      rfl

def getKey? (key : String) (entries : List (String × N)) : Option N :=
  entries.lookup key

namespace Element

def new (tag : String) : Element F N := { tag, attributes := [], nodup_keys := by simp }

def attr (e : Element F N) (key : String) (value : AttrValue F) : Element F N :=
  { e with
    attributes := setKey key value e.attributes
    nodup_keys := nodup_keys_setKey key value e.nodup_keys }

def get? (e : Element F N) (key : String) : Option (AttrValue F) := getKey? key e.attributes

/-- Sets the class, under the key `className`. -/
def className (e : Element F N) (value : String) : Element F N := e.attr "className" (.str value)

def withText (e : Element F N) (text : String) : Element F N :=
  { e with text := some (.literal text) }

def withComputedText (e : Element F N) (name : F) : Element F N :=
  { e with text := some (.computed name) }

/-- The key that binds a handler to `event`: the event with a capital first letter after `on`. -/
def handlerKey (event : String) : String :=
  match event.toList with
  | [] => "on"
  | first :: rest => String.ofList ('o' :: 'n' :: first.toUpper :: rest)

def on (e : Element F N) (event : String) (handler : F) : Element F N :=
  e.attr (handlerKey event) (.handler handler)

def withChild (e : Element F (Node F)) (node : Node F) : Element F (Node F) :=
  { e with children := some node }

def child (e : Element F (Node F)) (node : Node F) : Element F (Node F) :=
  { e with
    children := some <| match e.children with
      | none => node
      | some (.collection nodes) => .collection (nodes ++ [node])
      | some existing => .collection [existing, node] }

def withChildren (e : Element F (Node F)) (nodes : List (Node F)) : Element F (Node F) :=
  { e with children := some (.collection nodes) }

/-- Number of own keys, where text and children count as one each. -/
def size (e : Element F N) : Nat :=
  e.attributes.length + (if e.children.isSome then 1 else 0) + if e.text.isSome then 1 else 0

end Element

end TreeRender
