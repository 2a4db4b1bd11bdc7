import TreeRender.Cache

/-!
# Recency lists

What a cache has to do, told without stamps: it keeps its entries in the order of their last use, and
the one at the back makes room. Requests are served by a recency list as by a cache, so that the
answers of both can be compared, in whatever order a cache happens to keep its entries.
-/

namespace TreeRender

structure RecentEntry where
  key : String
  fragment : String
  hits : Nat
  inserted : Nat
  deriving DecidableEq

/-- The entries of a cache, the one used last at the front. -/
structure RecencyList where
  capacity : Nat
  ttl : Option Nat
  entries : List RecentEntry := []
  deriving DecidableEq

namespace RecentEntry

/-- An entry is too old once more time than allowed has passed since it was inserted. -/
def isExpired (e : RecentEntry) (ttl : Option Nat) (now : Nat) : Bool :=
  match ttl with
  | none => false
  | some ttl => e.inserted + ttl < now

def hit (e : RecentEntry) : RecentEntry :=
  { e with hits := min (e.hits + 1) 4294967295 }

end RecentEntry

namespace RecencyList

def find? (l : RecencyList) (key : String) : Option RecentEntry := l.entries.find? (·.key = key)

/-- The entries under other keys than `key`, in their order. -/
def others (l : RecencyList) (key : String) : List RecentEntry := l.entries.filter (·.key ≠ key)

/-- A hit moves to the front. An entry that is too old goes. -/
def get (l : RecencyList) (key : String) (now : Nat) : Option String × RecencyList :=
  match l.find? key with
  | none => (none, l)
  | some e =>
    if e.isExpired l.ttl now then (none, { l with entries := l.others key })
    else (some e.fragment, { l with entries := e.hit :: l.others key })

/-- What stays when an entry comes in under `key`: the entries under other keys, without the one at
the back if there is no room for one more. -/
def keeping (l : RecencyList) (key : String) : List RecentEntry :=
  if (l.find? key).isSome then l.others key
  else if l.entries.length < l.capacity then l.entries
  else l.entries.dropLast

def insert (l : RecencyList) (key fragment : String) (now : Nat) : RecencyList :=
  if l.capacity = 0 then l
  else { l with entries := ⟨key, fragment, 0, now⟩ :: l.keeping key }

end RecencyList

inductive CacheRequest where
  | get (key : String) (now : Nat)
  | insert (key fragment : String) (now : Nat)
  | contains (key : String)
  | hits (key : String)
  | clear

inductive CacheAnswer where
  | fragment (found : Option String)
  | present (found : Bool)
  | count (hits : Option Nat)
  | done
  deriving DecidableEq

def RecencyList.answer (l : RecencyList) : CacheRequest → CacheAnswer × RecencyList
  | .get key now => (.fragment (l.get key now).1, (l.get key now).2)
  | .insert key fragment now => (.done, l.insert key fragment now)
  | .contains key => (.present (l.find? key).isSome, l)
  | .hits key => (.count ((l.find? key).map (·.hits)), l)
  | .clear => (.done, { l with entries := [] })

def RecencyList.serve (l : RecencyList) : List CacheRequest → List CacheAnswer × RecencyList
  | [] => ([], l)
  | request :: rest =>
    let (answer, l) := l.answer request
    let (answers, l) := l.serve rest
    (answer :: answers, l)

namespace FragmentCache

def answer (c : FragmentCache) : CacheRequest → CacheAnswer × FragmentCache
  | .get key now => (.fragment (c.get key now).1, (c.get key now).2)
  | .insert key fragment now => (.done, c.insert key fragment now)
  | .contains key => (.present (c.contains key), c)
  | .hits key => (.count (c.hits? key), c)
  | .clear => (.done, c.clear)

/-- Requests that a cache serves one after the other, with their answers and the cache that is left.
Before each request the entries may be found in any order. -/
inductive Serves : FragmentCache → List CacheRequest → List CacheAnswer → FragmentCache → Prop
  | done {c} : Serves c [] [] c
  | next {c entries request answer d requests answers last} : c.entries.Perm entries →
    { c with entries }.answer request = (answer, d) → Serves d requests answers last →
    Serves c (request :: requests) (answer :: answers) last

theorem exists_serves (c : FragmentCache) (requests : List CacheRequest) :
    ∃ answers last, c.Serves requests answers last := by
  induction requests generalizing c with
  | nil => exact ⟨[], c, .done⟩
  | cons request rest ih =>
    obtain ⟨answers, last, hrest⟩ := ih (c.answer request).2
    exact ⟨(c.answer request).1 :: answers, last, .next (.refl _) rfl hrest⟩

end FragmentCache

end TreeRender
