import LogSyntax.Heuristics
/-!
# Caches with a recency order

A cache holds at most as many entries as its capacity says. Its entries are in the order of their
last use, and when one too many comes in, the least recently used entry goes. Looking at an entry
without asking for it is no use.
-/

namespace LogSyntax

/-- A cache, and its entries from the least to the most recently used. -/
structure LruCache (κ ν : Type) where
  entries : List (κ × ν)
  capacity : Nat
  capacity_pos : 0 < capacity

namespace LruCache

variable {κ ν : Type}

/-- The capacity of a cache of which nothing else is asked. -/
def standardCapacity : Nat := 256

/-- An empty cache of standard capacity. -/
def standard : LruCache κ ν := ⟨[], standardCapacity, by decide⟩

instance : Inhabited (LruCache κ ν) := ⟨standard⟩

/-- An empty cache that holds up to `capacity` entries. -/
def ofCapacity (capacity : Nat) : Except ConfigError (LruCache κ ν) :=
  if h : capacity = 0 then .error .zeroCapacity else .ok ⟨[], capacity, Nat.pos_of_ne_zero h⟩

/-- The number of entries. -/
def size (c : LruCache κ ν) : Nat := c.entries.length

/-- Whether the cache holds nothing. -/
def isEmpty (c : LruCache κ ν) : Bool := c.entries.isEmpty

/-- The keys, from the least to the most recently used. -/
def keys (c : LruCache κ ν) : List κ := c.entries.map (·.1)

/-- The cache without entries. -/
def clear (c : LruCache κ ν) : LruCache κ ν := { c with entries := [] }

/-- Whether another entry would push one out. -/
def isFull (c : LruCache κ ν) : Bool := c.capacity ≤ c.size

variable [DecidableEq κ]

/-- The value of a key, if the cache holds it. -/
def peek? (c : LruCache κ ν) (k : κ) : Option ν := c.entries.lookup k

/-- Whether the cache holds a key. -/
def contains (c : LruCache κ ν) (k : κ) : Bool := (c.peek? k).isSome

/-- The entries without that of a key. -/
def others (c : LruCache κ ν) (k : κ) : List (κ × ν) := c.entries.filter (·.1 ≠ k)

/-- The value of a key, which becomes the most recently used one. -/
def get? (c : LruCache κ ν) (k : κ) : Option ν × LruCache κ ν :=
  match c.peek? k with
  | some v => (some v, { c with entries := c.others k ++ [(k, v)] })
  | none => (none, c)

/-- The value that a key had before, and the cache with a new one for it, which becomes the most
recently used one. One entry too many pushes out the least recently used one. -/
def insert (c : LruCache κ ν) (k : κ) (v : ν) : Option ν × LruCache κ ν :=
  let entries := c.others k ++ [(k, v)]
  (c.peek? k, { c with entries := if c.capacity < entries.length then entries.tail else entries })

/-- The value of a key, which becomes the most recently used one. For a key that is absent `build`
makes the value, and then the least recently used entry makes room for it if the cache is full. That
the room is made behind the value and not before it shows only where `build` does not return. -/
def getOrBuild {m : Type → Type} [Monad m] (c : LruCache κ ν) (k : κ) (build : m ν) :
    m (ν × LruCache κ ν) :=
  match c.get? k with
  | (some v, c') => return (v, c')
  | (none, _) => do
    let v ← build
    let kept := if c.isFull then c.entries.tail else c.entries
    return (v, { c with entries := kept ++ [(k, v)] })

end LruCache

end LogSyntax
