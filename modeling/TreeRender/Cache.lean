/-!
# The fragment cache

Fragments by key, bounded by their number and optionally by age. Every use gives an entry a new
stamp, and the entry with the oldest stamp makes room when a new key comes to a full cache. An entry
that is too old goes when it is asked for. Time passes outside of the library, which only takes
readings, in nanoseconds.
-/

namespace TreeRender

/-- The readings of a clock, of which the first `taken` have been taken. -/
structure Clock where
  reading : Nat → Nat
  taken : Nat := 0

namespace Clock

def now (c : Clock) : Nat := c.reading c.taken

def tick (c : Clock) : Clock := { c with taken := c.taken + 1 }

def Monotone (c : Clock) : Prop := ∀ i j, i ≤ j → c.reading i ≤ c.reading j

end Clock

structure CacheEntry where
  key : String
  fragment : String
  /-- How often the entry was served. -/
  hits : Nat := 0
  lastUsed : Nat
  inserted : Nat
  deriving DecidableEq

/-- At most one entry per key. Ages and `ttl` are in nanoseconds. -/
structure FragmentCache where
  capacity : Nat
  ttl : Option Nat
  entries : List CacheEntry := []
  /-- The last stamp given. -/
  stamp : Nat := 0
  /-- How many entries went because they were too old. -/
  expired : Nat := 0
  deriving DecidableEq

namespace CacheEntry

def isExpired (e : CacheEntry) (ttl : Option Nat) (now : Nat) : Bool :=
  ttl.any fun ttl => ttl < now - e.inserted

/-- The number of hits stops at the largest 32-bit number. -/
def use (e : CacheEntry) (stamp : Nat) : CacheEntry :=
  { e with hits := min (e.hits + 1) (UInt32.size - 1), lastUsed := stamp }

end CacheEntry

namespace FragmentCache

def empty (capacity : Nat) (ttl : Option Nat) : FragmentCache := { capacity, ttl }

def find? (c : FragmentCache) (key : String) : Option CacheEntry :=
  c.entries.find? (·.key = key)

def contains (c : FragmentCache) (key : String) : Bool := (c.find? key).isSome

def hits? (c : FragmentCache) (key : String) : Option Nat := (c.find? key).map (·.hits)

def keys (c : FragmentCache) : List String := c.entries.map (·.key)

def size (c : FragmentCache) : Nat := c.entries.length

def clear (c : FragmentCache) : FragmentCache := { c with entries := [] }

def erase (c : FragmentCache) (key : String) : FragmentCache :=
  { c with entries := c.entries.filter (·.key ≠ key) }

/-- Asks for a fragment, which counts as a use. -/
def get (c : FragmentCache) (key : String) (now : Nat) : Option String × FragmentCache :=
  match c.find? key with
  | none => (none, { c with stamp := c.stamp + 1 })
  | some entry =>
    if entry.isExpired c.ttl now then (none, { c.erase key with expired := c.expired + 1 })
    else
      (some entry.fragment,
        { c with
          entries := c.entries.map fun e => if e.key = key then e.use (c.stamp + 1) else e
          stamp := c.stamp + 1 })

/-- The entry that was not used for longest. -/
def oldest? : List CacheEntry → Option CacheEntry
  | [] => none
  | e :: rest =>
    match oldest? rest with
    | none => some e
    | some o => if e.lastUsed ≤ o.lastUsed then some e else some o

/-- Removes the oldest entry of a full cache, unless `key` has its place already. -/
def makeRoom (c : FragmentCache) (key : String) : FragmentCache :=
  if c.capacity ≤ c.size && !c.contains key then
    match oldest? c.entries with
    | none => c
    | some entry => c.erase entry.key
  else c

/-- Stores a fragment, in place of an older one under the same key. -/
def insert (c : FragmentCache) (key fragment : String) (now : Nat) : FragmentCache :=
  if c.capacity = 0 then c
  else
    let c := c.makeRoom key
    { c with
      entries := (c.erase key).entries ++ [⟨key, fragment, 0, c.stamp + 1, now⟩]
      stamp := c.stamp + 1 }

end FragmentCache

end TreeRender
